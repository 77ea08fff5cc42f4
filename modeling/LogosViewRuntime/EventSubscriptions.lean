import LogosViewRuntime.Lib.Machine
import LogosViewRuntime.Lib.Stock
import LogosViewRuntime.Variant

/-! # Subscriptions to module events

`onModuleEvent` keeps a record of the subscription it made for an event and subscribes again only
if `LogosAPIClient` does not track that one any more.  Any number of calls, and whatever the client
does with its subscriptions in between.

* The client of a module gives its subscriptions ids that it has not given before, and 0 when it
  refuses one.  It stops tracking a subscription for its own reasons, and calls `armed(false)` for
  it then, later or never.
* `armed(false)` removes the record of the event, whose subscription may be another one by then.
  The next call subscribes a second time (`one_each_iff`). -/

namespace LogosViewRuntime.ModuleEvents

open Reactive

/-- A subscription of `LogosAPIClient`. -/
structure Subscription where
  module : String
  event : String
  id : ℕ
  armed : Bool := false
deriving DecidableEq, Repr

def Subscription.key (sub : Subscription) : String × String := (sub.module, sub.event)

/-- The clients of all modules: the subscriptions they track, those they do not track any more and
whose `armed(false)` has not been called, and the ids they have given. -/
structure Client where
  tracked : List Subscription := []
  untracked : List Subscription := []
  given : List (String × ℕ) := []

structure Bridge where
  logosAPI : Bool
  viewModuleSockets : List String := []
  eventSubscriptions : QHash (String × String) ℕ := ∅
  client : Client := {}
  /-- The subscription that `onEventWhenAvailable` is about to return. -/
  calling : Option Subscription := none

inductive Obs where
  | onEventWhenAvailable (module event : String) (id : ℕ)
  | returned (accepted : Bool)
  | moduleEventReceived (module event : String) (data : List QVariant)

/-! ### `LogosAPIClient` -/

namespace Client

/-- `eventSubscriptionState(id)` is not `Unknown`. -/
def tracks (module : String) (id : ℕ) (client : Client) : Bool :=
  client.tracked.any fun sub => sub.module = module && sub.id = id

/-- The tracked subscriptions to an event. -/
def subscriptions (key : String × String) (client : Client) : List Subscription :=
  client.tracked.filter (·.key = key)

def track (sub : Subscription) (client : Client) : Client :=
  { client with
    tracked := client.tracked ++ [sub]
    given := (sub.module, sub.id) :: client.given }

def arm (module : String) (id : ℕ) (client : Client) : Client :=
  { client with
    tracked := client.tracked.map fun sub =>
      if sub.module = module && sub.id = id then { sub with armed := true } else sub }

def drop (sub : Subscription) (client : Client) : Client :=
  { client with
    tracked := client.tracked.erase sub
    untracked := sub :: client.untracked }

end Client

/-! ### `LogosQmlBridge` -/

namespace Bridge

/-- `id` is what `onEventWhenAvailable` will return. -/
def subscribe (module event : String) (id : ℕ) (s : Bridge) : Bridge × List Obs :=
  if id = 0 then (s, [.onEventWhenAvailable module event id, .returned false])
  else
    let sub := { module, event, id }
    ({ s with client := s.client.track sub, calling := some sub },
      [.onEventWhenAvailable module event id])

/-- `onModuleEvent` up to the subscription, if it makes one. -/
def onModuleEvent (getClient : String → Bool) (module event : String) (id : ℕ) (s : Bridge) :
    Bridge × List Obs :=
  if !s.logosAPI then (s, [.returned false])
  else if module = "" || event = "" then (s, [.returned false])
  else if s.viewModuleSockets.contains module then (s, [.returned false])
  else if !getClient module then (s, [.returned false])
  else
    match s.eventSubscriptions.lookup (module, event) with
    | some known =>
        if s.client.tracks module known then (s, [.returned true])
        else
          { s with eventSubscriptions := s.eventSubscriptions.erase (module, event) }.subscribe module
            event id
    | none => s.subscribe module event id

/-- The rest of `onModuleEvent`. -/
def subscribed (sub : Subscription) (s : Bridge) : Bridge × List Obs :=
  ({ s with
      eventSubscriptions := s.eventSubscriptions.insert sub.key sub.id
      calling := none }, [.returned true])

/-- `armed(false)`. -/
def abandoned (sub : Subscription) (s : Bridge) : Bridge :=
  { s with
    eventSubscriptions := s.eventSubscriptions.erase sub.key
    client := { s.client with untracked := s.client.untracked.erase sub } }

/-- What comes of an event: each armed subscription to it calls back. -/
def emitted (module event : String) (data : List QVariant) (s : Bridge) : List Obs :=
  ((s.client.subscriptions (module, event)).filter (·.armed)).map fun _ =>
    .moduleEventReceived module event data

end Bridge

inductive Action where
  | onModuleEvent (module event : String) (id : ℕ)
  | subscribed
  | arm (module : String) (id : ℕ)
  | drop (sub : Subscription)
  | abandoned (sub : Subscription)
  | event (module event : String) (data : List QVariant)
  | setViewModuleSocket (module : String)

/-- A call does not return before `onEventWhenAvailable` does. -/
def step (getClient : String → Bool) (s : Bridge) : Action → Option (Bridge × List Obs)
  | .onModuleEvent module event id =>
      if s.calling.isSome then none else some (s.onModuleEvent getClient module event id)
  | .subscribed => s.calling.map fun sub => s.subscribed sub
  | .arm module id => some ({ s with client := s.client.arm module id }, [])
  | .drop sub =>
      if sub ∈ s.client.tracked then some ({ s with client := s.client.drop sub }, []) else none
  | .abandoned sub => if sub ∈ s.client.untracked then some (s.abandoned sub, []) else none
  | .event module event data => some (s, s.emitted module event data)
  | .setViewModuleSocket module =>
      some ({ s with viewModuleSockets := module :: s.viewModuleSockets }, [])

/-- A bridge; `getClient` is false for the modules for which `LogosAPI` has no client. -/
def machine (getClient : String → Bool) (logosAPI : Bool) : Machine Bridge Action Obs where
  init := { logosAPI }
  step := step getClient

/-! ### The property and its condition -/

/-- The client gives no id twice. -/
def Fresh (_ : List Obs) (s : Bridge) : Action → Prop
  | .onModuleEvent module _ id => id ≠ 0 → (module, id) ∉ s.client.given
  | _ => True

/-- The client tracks one subscription to an event at most, so an event is received once. -/
structure OneEach (s : Bridge) : Prop where
  tracked : ∀ key, (s.client.subscriptions key).length ≤ 1
  received : ∀ module event data, (s.emitted module event data).length ≤ 1

/-- The call goes through to the record. -/
def Bridge.Accepts (getClient : String → Bool) (module event : String) (s : Bridge) : Prop :=
  s.logosAPI = true ∧ module ≠ "" ∧ event ≠ "" ∧ module ∉ s.viewModuleSockets ∧
    getClient module = true

instance (getClient : String → Bool) (module event : String) (s : Bridge) :
    Decidable (s.Accepts getClient module event) :=
  inferInstanceAs (Decidable (_ ∧ _ ∧ _ ∧ _ ∧ _))

/-- The tracked subscription to the event, if there is one, is on record. -/
def Recorded (getClient : String → Bool) (_ : List Obs) (s : Bridge) : Action → Prop
  | .onModuleEvent module event id => s.Accepts getClient module event → id ≠ 0 →
      ∀ sub ∈ s.client.subscriptions (module, event),
        s.eventSubscriptions.lookup (module, event) = some sub.id
  | _ => True

/-- `armed(false)` comes while no other subscription to the event is on record and tracked. -/
def Timely (_ : List Obs) (s : Bridge) : Action → Prop
  | .abandoned sub => ∀ other ∈ s.client.subscriptions sub.key,
      s.eventSubscriptions.lookup sub.key ≠ some other.id
  | _ => True

/-- A call that finds its subscription no longer tracked subscribes again. -/
def Resubscribes (getClient : String → Bool) (s : Bridge) : Prop :=
  ∀ module event id known, s.Accepts getClient module event →
    s.eventSubscriptions.lookup (module, event) = some known →
    s.client.tracks module known = false →
      ∃ rest, (s.onModuleEvent getClient module event id).2 =
        .onEventWhenAvailable module event id :: rest

instance (getClient : String → Bool) (tr : List Obs) (s : Bridge) :
    (a : Action) → Decidable (Recorded getClient tr s a)
  | .onModuleEvent module event id => inferInstanceAs (Decidable
      (s.Accepts getClient module event → id ≠ 0 →
        ∀ sub ∈ s.client.subscriptions (module, event),
          s.eventSubscriptions.lookup (module, event) = some sub.id))
  | .subscribed | .arm .. | .drop _ | .abandoned _ | .event .. | .setViewModuleSocket _ =>
      inferInstanceAs (Decidable True)

instance (tr : List Obs) (s : Bridge) : (a : Action) → Decidable (Fresh tr s a)
  | .onModuleEvent module _ id => inferInstanceAs (Decidable (id ≠ 0 → (module, id) ∉ s.client.given))
  | .subscribed | .arm .. | .drop _ | .abandoned _ | .event .. | .setViewModuleSocket _ =>
      inferInstanceAs (Decidable True)

variable {getClient : String → Bool} {tr : List Obs} {s s' : Bridge} {module event : String} {id : ℕ}

theorem oneEach_iff : OneEach s ↔ ∀ key, (s.client.subscriptions key).length ≤ 1 := by
  refine ⟨fun h => h.tracked, fun h => ⟨h, fun module event data => ?_⟩⟩
  rw [Bridge.emitted, List.length_map]
  exact Nat.le_trans (List.length_filter_le _ _) (h (module, event))

/-! ### What a call does -/

theorem tracks_iff {client : Client} :
    client.tracks module id = true ↔ ∃ sub ∈ client.tracked, sub.module = module ∧ sub.id = id := by
  simp [Client.tracks]

theorem mem_subscriptions {client : Client} {key : String × String} {sub : Subscription} :
    sub ∈ client.subscriptions key ↔ sub ∈ client.tracked ∧ sub.key = key := by
  simp [Client.subscriptions]

/-- A call is turned down, finds its subscription on record, or subscribes. -/
theorem onModuleEvent_cases (getClient : String → Bool) (module event : String) (id : ℕ)
    (s : Bridge) :
    ¬ s.Accepts getClient module event ∧
      s.onModuleEvent getClient module event id = (s, [.returned false]) ∨
    (∃ known, s.eventSubscriptions.lookup (module, event) = some known ∧
      s.client.tracks module known = true ∧
      s.onModuleEvent getClient module event id = (s, [.returned true])) ∨
    s.Accepts getClient module event ∧
      (∀ known, s.eventSubscriptions.lookup (module, event) = some known →
        s.client.tracks module known = false) ∧
      s.onModuleEvent getClient module event id =
        { s with eventSubscriptions := s.eventSubscriptions.erase (module, event) }.subscribe module
          event id := by
  unfold Bridge.onModuleEvent
  split_ifs with hapi hempty hsocket hclient
  · refine .inl ⟨fun h => ?_, rfl⟩
    simp [h.1] at hapi
  · refine .inl ⟨fun h => ?_, rfl⟩
    simp [h.2.1, h.2.2.1] at hempty
  · refine .inl ⟨fun h => ?_, rfl⟩
    exact h.2.2.2.1 (List.contains_iff_mem.mp hsocket)
  · refine .inl ⟨fun h => ?_, rfl⟩
    simp [h.2.2.2.2] at hclient
  · have haccepts : s.Accepts getClient module event := by
      simp only [Bool.or_eq_true, decide_eq_true_eq, not_or] at hempty
      refine ⟨by simpa using hapi, hempty.1, hempty.2, fun hmem => ?_, by simpa using hclient⟩
      exact hsocket (List.contains_iff_mem.mpr hmem)
    cases hknown : s.eventSubscriptions.lookup (module, event) with
    | none =>
        refine .inr (.inr ⟨haccepts, by simp, ?_⟩)
        rw [Stock.erase_of_lookup_none hknown]
    | some known =>
        cases htracks : s.client.tracks module known with
        | true => exact .inr (.inl ⟨known, rfl, htracks, by simp [htracks]⟩)
        | false =>
            refine .inr (.inr ⟨haccepts, fun known' hknown' => ?_, by simp [htracks]⟩)
            obtain rfl := Option.some.inj hknown'
            exact htracks

theorem resubscribes (getClient : String → Bool) (s : Bridge) : Resubscribes getClient s := by
  intro module event id known haccepts hknown htracks
  obtain ⟨hnot, -⟩ | ⟨known', hknown', htracks', -⟩ | ⟨-, -, he⟩ :=
    onModuleEvent_cases getClient module event id s
  · exact absurd haccepts hnot
  · obtain rfl := Option.some.inj (hknown.symm.trans hknown')
    rw [htracks] at htracks'
    cases htracks'
  · rw [he, Bridge.subscribe]
    split_ifs
    · exact ⟨_, rfl⟩
    · exact ⟨_, rfl⟩

/-! ### What the ids stand for -/

/-- The client gave `id` to a subscription to the event. -/
structure Client.Gave (client : Client) (key : String × String) (id : ℕ) : Prop where
  given : (key.1, id) ∈ client.given
  key : ∀ sub ∈ client.tracked, sub.module = key.1 → sub.id = id → sub.key = key

/-- The ids in use stand for what they were given to. -/
structure Consistent (s : Bridge) : Prop where
  tracked : ∀ sub ∈ s.client.tracked, (sub.module, sub.id) ∈ s.client.given
  record : ∀ key id, s.eventSubscriptions.lookup key = some id → s.client.Gave key id
  calling : ∀ sub ∈ s.calling, s.client.Gave sub.key sub.id

/-- The client tracks no more subscriptions than it did. -/
structure Client.Keeps (client client' : Client) : Prop where
  given : client'.given = client.given
  tracked : ∀ sub' ∈ client'.tracked, ∃ sub ∈ client.tracked, sub'.key = sub.key ∧ sub'.id = sub.id
  length : ∀ key, (client'.subscriptions key).length ≤ (client.subscriptions key).length

namespace Client

variable {client client' : Client}

theorem Keeps.refl (client : Client) : client.Keeps client :=
  ⟨rfl, fun sub hsub => ⟨sub, hsub, rfl, rfl⟩, fun _ => Nat.le_refl _⟩

theorem keeps_arm (module : String) (id : ℕ) (client : Client) :
    client.Keeps (client.arm module id) := by
  have hsame : ∀ sub : Subscription,
      (if sub.module = module && sub.id = id then { sub with armed := true } else sub).key = sub.key ∧
      (if sub.module = module && sub.id = id then { sub with armed := true } else sub).id = sub.id := by
    intro sub
    split_ifs
    · exact ⟨rfl, rfl⟩
    · exact ⟨rfl, rfl⟩
  refine ⟨rfl, fun sub' hsub' => ?_, fun key => ?_⟩
  · obtain ⟨sub, hsub, rfl⟩ := List.mem_map.mp hsub'
    exact ⟨sub, hsub, hsame sub⟩
  · simp only [subscriptions, arm, List.filter_map, List.length_map]
    refine Nat.le_of_eq (congrArg List.length (List.filter_congr fun sub _ => ?_))
    rw [Function.comp_apply, (hsame sub).1]

theorem keeps_drop (sub : Subscription) (client : Client) : client.Keeps (client.drop sub) := by
  refine ⟨rfl, fun sub' hsub' => ⟨sub', List.mem_of_mem_erase hsub', rfl, rfl⟩, fun key => ?_⟩
  exact (List.erase_sublist.filter _).length_le

theorem Gave.keeps {key : String × String} {id : ℕ} (h : client.Gave key id)
    (hk : client.Keeps client') : client'.Gave key id := by
  refine ⟨hk.given ▸ h.given, fun sub' hsub' hmodule hid => ?_⟩
  obtain ⟨sub, hsub, hkey, hid'⟩ := hk.tracked sub' hsub'
  rw [hkey]
  refine h.key sub hsub ?_ (hid'.symm.trans hid)
  exact (congrArg Prod.fst hkey).symm.trans hmodule

/-- A new id was given to nothing else. -/
theorem Gave.track {key : String × String} {id : ℕ} {sub : Subscription} (h : client.Gave key id)
    (hnew : (sub.module, sub.id) ∉ client.given) : (client.track sub).Gave key id := by
  refine ⟨List.mem_cons_of_mem _ h.given, fun sub' hsub' hmodule hid => ?_⟩
  obtain hsub' | hsub' := List.mem_append.mp hsub'
  · exact h.key sub' hsub' hmodule hid
  · obtain rfl := List.mem_singleton.mp hsub'
    rw [hmodule, hid] at hnew
    exact absurd h.given hnew

theorem gave_track {sub : Subscription} (hnew : (sub.module, sub.id) ∉ client.given)
    (htracked : ∀ sub' ∈ client.tracked, (sub'.module, sub'.id) ∈ client.given) :
    (client.track sub).Gave sub.key sub.id := by
  refine ⟨List.mem_cons_self, fun sub' hsub' hmodule hid => ?_⟩
  obtain hsub' | hsub' := List.mem_append.mp hsub'
  · have hgiven := htracked sub' hsub'
    rw [hid, hmodule] at hgiven
    exact absurd hgiven hnew
  · rw [List.mem_singleton.mp hsub']

/-- One subscription to its event more. -/
theorem length_track (sub : Subscription) (key : String × String) (client : Client) :
    ((client.track sub).subscriptions key).length =
      (client.subscriptions key).length + if sub.key = key then 1 else 0 := by
  simp only [subscriptions, track, List.filter_append, List.length_append]
  split_ifs with hkey
  · simp [hkey]
  · simp [hkey]

end Client

/-! ### Every step -/

/-- What a step does: a call goes on or returns, a record is removed, or the client tracks no more
than before. -/
inductive Effect (getClient : String → Bool) (s : Bridge) : Action → Bridge → Prop
  | call {module event : String} {id : ℕ} : s.calling = none →
      Effect getClient s (.onModuleEvent module event id)
        (s.onModuleEvent getClient module event id).1
  | subscribed {sub : Subscription} : s.calling = some sub →
      Effect getClient s .subscribed (s.subscribed sub).1
  | abandoned {sub : Subscription} : Effect getClient s (.abandoned sub) (s.abandoned sub)
  | other {a : Action} {s' : Bridge} : (∀ tr, Recorded getClient tr s a) →
      s.client.Keeps s'.client → s'.eventSubscriptions = s.eventSubscriptions →
      s'.calling = s.calling → Effect getClient s a s'

theorem step_effect {a : Action} {os : List Obs} (hs : step getClient s a = some (s', os)) :
    Effect getClient s a s' := by
  cases a with
  | onModuleEvent module event id =>
      obtain ⟨hcalling, rfl, -⟩ := Machine.taken_unless hs
      exact .call (by simpa using hcalling)
  | subscribed =>
      obtain ⟨sub, hcalling, he⟩ := Option.map_eq_some_iff.mp hs
      obtain ⟨rfl, -⟩ := Prod.mk.inj he
      exact .subscribed hcalling
  | arm module id =>
      obtain ⟨rfl, -⟩ := Prod.mk.inj (Option.some.inj hs)
      exact .other (fun _ => trivial) (Client.keeps_arm module id s.client) rfl rfl
  | drop sub =>
      obtain ⟨-, rfl, -⟩ := Machine.taken_if hs
      exact .other (fun _ => trivial) (Client.keeps_drop sub s.client) rfl rfl
  | abandoned sub =>
      obtain ⟨-, rfl, -⟩ := Machine.taken_if hs
      exact .abandoned
  | event module event data =>
      obtain ⟨rfl, -⟩ := Prod.mk.inj (Option.some.inj hs)
      exact .other (fun _ => trivial) (.refl _) rfl rfl
  | setViewModuleSocket module =>
      obtain ⟨rfl, -⟩ := Prod.mk.inj (Option.some.inj hs)
      exact .other (fun _ => trivial) (.refl _) rfl rfl

/-- `armed(false)` is the end of a subscription that is not tracked any more. -/
theorem Client.keeps_abandoned (sub : Subscription) (s : Bridge) :
    s.client.Keeps (s.abandoned sub).client := by
  have h := Client.Keeps.refl s.client
  exact ⟨h.given, h.tracked, h.length⟩

/-- Records are removed, and the client does not track more. -/
theorem Consistent.keeps (h : Consistent s) (hclient : s.client.Keeps s'.client)
    (hrecord : ∀ key id, s'.eventSubscriptions.lookup key = some id →
      s.eventSubscriptions.lookup key = some id) (hcalling : s'.calling = s.calling) :
    Consistent s' := by
  refine ⟨fun sub' hsub' => ?_, fun key id hkey => ?_, fun sub hsub => ?_⟩
  · obtain ⟨sub, hsub, hkey, hid⟩ := hclient.tracked sub' hsub'
    rw [hclient.given, show sub'.module = sub.module from congrArg Prod.fst hkey, hid]
    exact h.tracked sub hsub
  · exact (h.record key id (hrecord key id hkey)).keeps hclient
  · exact (h.calling sub (hcalling ▸ hsub)).keeps hclient

theorem lookup_of_lookup_erase {m : QHash (String × String) ℕ} {key key' : String × String}
    (hkey : (m.erase key).lookup key' = some id) : m.lookup key' = some id := by
  by_cases he : key' = key
  · rw [he, AList.lookup_erase] at hkey
    cases hkey
  · rwa [AList.lookup_erase_ne he] at hkey

theorem Consistent.onModuleEvent (h : Consistent s)
    (hfresh : id ≠ 0 → (module, id) ∉ s.client.given) :
    Consistent (s.onModuleEvent getClient module event id).1 := by
  obtain ⟨-, he⟩ | ⟨known, -, -, he⟩ | ⟨-, -, he⟩ := onModuleEvent_cases getClient module event id s
  · rwa [he]
  · rwa [he]
  · rw [he, Bridge.subscribe]
    split_ifs with hid
    · exact h.keeps (.refl _) (fun _ _ => lookup_of_lookup_erase) rfl
    · have hnew := hfresh hid
      refine ⟨fun sub hsub => ?_, fun key id' hkey => ?_, fun sub hsub => ?_⟩
      · obtain hsub | hsub := List.mem_append.mp hsub
        · exact List.mem_cons_of_mem _ (h.tracked sub hsub)
        · rw [List.mem_singleton.mp hsub]
          exact List.mem_cons_self
      · exact (h.record key id' (lookup_of_lookup_erase hkey)).track hnew
      · obtain rfl := Option.some.inj hsub
        exact Client.gave_track hnew h.tracked

theorem Consistent.subscribed (h : Consistent s) {sub : Subscription}
    (hcalling : s.calling = some sub) : Consistent (s.subscribed sub).1 := by
  refine ⟨h.tracked, fun key id hkey => ?_, by simp [Bridge.subscribed]⟩
  dsimp only [Bridge.subscribed] at hkey
  by_cases hsub : key = sub.key
  · subst hsub
    rw [AList.lookup_insert] at hkey
    obtain rfl := Option.some.inj hkey
    exact h.calling sub hcalling
  · rw [AList.lookup_insert_ne hsub] at hkey
    exact h.record key id hkey

theorem Consistent.step {a : Action} {os : List Obs} (h : Consistent s) (hfresh : Fresh tr s a)
    (hs : step getClient s a = some (s', os)) : Consistent s' := by
  cases step_effect hs with
  | call hcalling => exact h.onModuleEvent hfresh
  | subscribed hcalling => exact h.subscribed hcalling
  | abandoned =>
      exact h.keeps (Client.keeps_abandoned _ s) (fun _ _ => lookup_of_lookup_erase) rfl
  | other _ hclient hrecord hcalling =>
      exact h.keeps hclient (fun key id hkey => hrecord ▸ hkey) hcalling

theorem OneEach.keeps (h : OneEach s) (hclient : s.client.Keeps s'.client) : OneEach s' :=
  oneEach_iff.mpr fun key => Nat.le_trans (hclient.length key) (h.tracked key)

/-- A call leaves one subscription to each event exactly when the tracked one, if there is one, is
on record. -/
theorem onModuleEvent_exact (h : Consistent s) (hs : OneEach s) :
    OneEach (s.onModuleEvent getClient module event id).1 ↔
      Recorded getClient tr s (.onModuleEvent module event id) := by
  have hrecorded : Recorded getClient tr s (.onModuleEvent module event id) ↔
    (s.Accepts getClient module event → id ≠ 0 →
      ∀ sub ∈ s.client.subscriptions (module, event),
        s.eventSubscriptions.lookup (module, event) = some sub.id) := .rfl
  rw [hrecorded]
  obtain ⟨hnot, he⟩ | ⟨known, hknown, htracks, he⟩ | ⟨haccepts, huntracked, he⟩ :=
    onModuleEvent_cases getClient module event id s
  · rw [he]
    exact iff_of_true hs fun haccepts => absurd haccepts hnot
  · rw [he]
    refine iff_of_true hs fun _ _ sub hsub => ?_
    -- the tracked subscription of that id is to this event, and there is one at most
    obtain ⟨sub', htracked', hmodule', hid'⟩ := tracks_iff.mp htracks
    have hsub' : sub' ∈ s.client.subscriptions (module, event) :=
      mem_subscriptions.mpr ⟨htracked', (h.record _ _ hknown).key sub' htracked' hmodule' hid'⟩
    have hone := hs.tracked (module, event)
    obtain ⟨only, honly⟩ := List.length_eq_one_iff.mp
      (Nat.le_antisymm hone (List.length_pos_of_mem hsub))
    rw [honly, List.mem_singleton] at hsub hsub'
    rw [hknown, ← hid', hsub', hsub]
  · rw [he, Bridge.subscribe]
    split_ifs with hid
    · exact iff_of_true (hs.keeps (.refl _)) fun _ hne => absurd hid hne
    · have hnone : (∀ sub ∈ s.client.subscriptions (module, event),
          s.eventSubscriptions.lookup (module, event) = some sub.id) ↔
          s.client.subscriptions (module, event) = [] := by
        refine ⟨fun hall => ?_, fun hnil sub hsub => ?_⟩
        · refine List.eq_nil_iff_forall_not_mem.mpr fun sub hsub => ?_
          obtain ⟨htracked, hkey⟩ := mem_subscriptions.mp hsub
          have htracks : s.client.tracks module sub.id = true :=
            tracks_iff.mpr ⟨sub, htracked, congrArg Prod.fst hkey, rfl⟩
          rw [huntracked sub.id (hall sub hsub)] at htracks
          cases htracks
        · rw [hnil] at hsub
          cases hsub
      have hnew : Subscription.key { module, event, id } = (module, event) := rfl
      have hlength := Client.length_track { module, event, id }
      rw [hnew] at hlength
      rw [oneEach_iff, imp_iff_right haccepts, imp_iff_right hid, hnone]
      constructor
      · intro hone
        have := hone (module, event)
        dsimp only at this
        rw [hlength, if_pos rfl] at this
        exact List.length_eq_zero_iff.mp (by omega)
      · intro hnil key
        have := hs.tracked key
        dsimp only
        rw [hlength]
        split_ifs with hkey
        · rw [← hkey, hnil]
          exact Nat.le_refl 1
        · exact this

/-- **Every step** leaves one subscription to each event exactly when it meets the condition. -/
theorem step_exact {a : Action} {os : List Obs} (h : Consistent s) (hs : OneEach s)
    (hstep : step getClient s a = some (s', os)) : OneEach s' ↔ Recorded getClient tr s a := by
  cases step_effect hstep with
  | call hcalling => exact onModuleEvent_exact h hs
  | subscribed hcalling => exact iff_of_true (hs.keeps (.refl _)) trivial
  | abandoned => exact iff_of_true (hs.keeps (Client.keeps_abandoned _ s)) trivial
  | other hrecorded hclient _ _ => exact iff_of_true (hs.keeps hclient) (hrecorded tr)

/-! ### Timely callbacks -/

/-- Every tracked subscription is on record, or will be when the call that makes it returns. -/
structure OnRecord (s : Bridge) : Prop where
  tracked : ∀ sub ∈ s.client.tracked, s.eventSubscriptions.lookup sub.key = some sub.id ∨
    ∃ call ∈ s.calling, call.key = sub.key ∧ call.id = sub.id
  calling : ∀ call ∈ s.calling, ∀ sub ∈ s.client.tracked, sub.key = call.key → sub.id = call.id

theorem OnRecord.recorded (h : OnRecord s) (hcalling : s.calling = none) :
    ∀ sub ∈ s.client.tracked, s.eventSubscriptions.lookup sub.key = some sub.id := by
  intro sub hsub
  obtain hrecord | ⟨call, hcall, -⟩ := h.tracked sub hsub
  · exact hrecord
  · rw [hcalling] at hcall
    cases hcall

theorem OnRecord.keeps (h : OnRecord s) (hclient : s.client.Keeps s'.client)
    (hrecord : ∀ sub ∈ s.client.tracked, s.eventSubscriptions.lookup sub.key = some sub.id →
      s'.eventSubscriptions.lookup sub.key = some sub.id) (hcalling : s'.calling = s.calling) :
    OnRecord s' := by
  refine ⟨fun sub' hsub' => ?_, fun call hcall sub' hsub' hkey' => ?_⟩
  · obtain ⟨sub, hsub, hkey, hid⟩ := hclient.tracked sub' hsub'
    rw [hkey, hid, hcalling]
    obtain hrecorded | hcall := h.tracked sub hsub
    · exact .inl (hrecord sub hsub hrecorded)
    · exact .inr hcall
  · obtain ⟨sub, hsub, hkey, hid⟩ := hclient.tracked sub' hsub'
    rw [hid]
    exact h.calling call (hcalling ▸ hcall) sub hsub (hkey.symm.trans hkey')

theorem OnRecord.onModuleEvent (h : OnRecord s) (hcalling : s.calling = none) :
    OnRecord (s.onModuleEvent getClient module event id).1 := by
  obtain ⟨-, he⟩ | ⟨known, -, -, he⟩ | ⟨-, huntracked, he⟩ :=
    onModuleEvent_cases getClient module event id s
  · rwa [he]
  · rwa [he]
  · -- a subscription to the event that is tracked would be on record, and none is
    have hother : ∀ sub ∈ s.client.tracked, sub.key ≠ (module, event) := by
      intro sub hsub hkey
      have hrecorded := h.recorded hcalling sub hsub
      rw [hkey] at hrecorded
      have htracks : s.client.tracks module sub.id = true :=
        tracks_iff.mpr ⟨sub, hsub, congrArg Prod.fst hkey, rfl⟩
      rw [huntracked sub.id hrecorded] at htracks
      cases htracks
    have herase : ∀ sub ∈ s.client.tracked,
        (s.eventSubscriptions.erase (module, event)).lookup sub.key = some sub.id := by
      intro sub hsub
      rw [AList.lookup_erase_ne (hother sub hsub)]
      exact h.recorded hcalling sub hsub
    rw [he, Bridge.subscribe]
    split_ifs with hid
    · exact h.keeps (.refl _) (fun sub hsub _ => herase sub hsub) rfl
    · refine ⟨fun sub hsub => ?_, fun call hcall sub hsub hkey => ?_⟩
      · obtain hsub | hsub := List.mem_append.mp hsub
        · exact .inl (herase sub hsub)
        · obtain rfl := List.mem_singleton.mp hsub
          exact .inr ⟨_, rfl, rfl, rfl⟩
      · obtain rfl := Option.some.inj hcall
        obtain hsub | hsub := List.mem_append.mp hsub
        · exact absurd hkey (hother sub hsub)
        · rw [List.mem_singleton.mp hsub]

theorem OnRecord.subscribed (h : OnRecord s) {call : Subscription}
    (hcalling : s.calling = some call) : OnRecord (s.subscribed call).1 := by
  refine ⟨fun sub hsub => .inl ?_, by simp [Bridge.subscribed]⟩
  dsimp only [Bridge.subscribed]
  by_cases hkey : sub.key = call.key
  · rw [hkey, AList.lookup_insert, h.calling call hcalling sub hsub hkey]
  · rw [AList.lookup_insert_ne hkey]
    obtain hrecord | ⟨call', hcall', hkey', -⟩ := h.tracked sub hsub
    · exact hrecord
    · obtain rfl := Option.some.inj (hcalling.symm.trans hcall')
      exact absurd hkey'.symm hkey

theorem OnRecord.step {a : Action} {os : List Obs} (h : OnRecord s) (htimely : Timely tr s a)
    (hs : step getClient s a = some (s', os)) : OnRecord s' := by
  cases step_effect hs with
  | call hcalling => exact h.onModuleEvent hcalling
  | subscribed hcalling => exact h.subscribed hcalling
  | @abandoned sub =>
      refine h.keeps (Client.keeps_abandoned sub s) (fun other hother hrecord => ?_) rfl
      have hkey : other.key ≠ sub.key := by
        intro hkey
        rw [hkey] at hrecord
        exact htimely other (mem_subscriptions.mpr ⟨hother, hkey⟩) hrecord
      exact (AList.lookup_erase_ne hkey).trans hrecord
  | other _ hclient hrecord hcalling =>
      exact h.keeps hclient (fun _ _ hrecorded => hrecord.symm ▸ hrecorded) hcalling

/-- While every tracked subscription is on record no call makes a second one. -/
theorem OnRecord.meets {a : Action} {os : List Obs} (h : OnRecord s)
    (hs : ModuleEvents.step getClient s a = some (s', os)) : Recorded getClient tr s a := by
  cases step_effect hs with
  | call hcalling =>
      intro _ _ sub hsub
      obtain ⟨htracked, hkey⟩ := mem_subscriptions.mp hsub
      rw [← hkey]
      exact h.recorded hcalling sub htracked
  | subscribed _ => trivial
  | abandoned => trivial
  | other hrecorded _ _ _ => exact hrecorded tr

/-! ### Runs -/

section run

variable {logosAPI : Bool}

theorem initial_oneEach (logosAPI : Bool) : OneEach { logosAPI } :=
  oneEach_iff.mpr fun _ => Nat.zero_le 1

theorem initial_consistent (logosAPI : Bool) : Consistent { logosAPI } :=
  ⟨by simp, by simp, by simp⟩

theorem initial_onRecord (logosAPI : Bool) : OnRecord { logosAPI } := ⟨by simp, by simp⟩

theorem run_consistent {G : List Obs → Bridge → Action → Prop}
    (h : (machine getClient logosAPI).Run (Machine.both Fresh G) tr s) : Consistent s := by
  refine h.left.invariant (I := fun _ s => Consistent s) (initial_consistent logosAPI)
    fun {_ _ _ _ _} hi hfresh hs => hi.step hfresh hs

theorem run_onRecord (h : (machine getClient logosAPI).Run Timely tr s) : OnRecord s :=
  h.invariant (I := fun _ s => OnRecord s) (initial_onRecord logosAPI)
    fun {_ _ _ _ _} hi htimely hs => hi.step htimely hs

theorem run_timely (h : (machine getClient logosAPI).Run (Machine.both Fresh Timely) tr s) :
    (machine getClient logosAPI).Run (Machine.both Fresh (Recorded getClient)) tr s := by
  induction h with
  | start => exact .start
  | step hrun hg hs ih =>
      have honrecord := run_onRecord (hrun.mono fun _ _ _ hg => hg.2)
      exact ih.step ⟨hg.1, honrecord.meets hs⟩ hs

/-- **One subscription for each event**: a call that finds its subscription no longer tracked always
subscribes again, and the client tracks one subscription to each event at most, at every moment of
exactly the runs in which `onModuleEvent` finds the tracked one on record.  It does so unless an
`armed(false)` came late, when the event had been subscribed to again. -/
theorem one_each_iff (getClient : String → Bool) (logosAPI : Bool) :
    (∀ tr s, (machine getClient logosAPI).Run (Machine.both Fresh (Recorded getClient)) tr s →
      OneEach s) ∧
    (∀ tr s, (machine getClient logosAPI).Run
      (Machine.both Fresh ((machine getClient logosAPI).keeps fun _ => OneEach)) tr s →
        (machine getClient logosAPI).Run (Machine.both Fresh (Recorded getClient)) tr s) ∧
    (∀ tr s, (machine getClient logosAPI).Run (Machine.both Fresh Timely) tr s →
      (machine getClient logosAPI).Run (Machine.both Fresh (Recorded getClient)) tr s) ∧
    ∀ tr s, (machine getClient logosAPI).Run Fresh tr s → Resubscribes getClient s := by
  have hexact := Machine.Run.exact (M := machine getClient logosAPI) (G := Fresh)
    (C := Recorded getClient) (P := fun _ => OneEach) (initial_oneEach logosAPI)
    fun {_ _ _ _ _} hrun hP _ hs => step_exact (run_consistent hrun) hP hs
  exact ⟨hexact.1, hexact.2, fun tr s h => run_timely h, fun _ s _ => resubscribes getClient s⟩

end run

/-- A subscription is made once, dropped, made again by the next call, armed and received once. -/
theorem subscribed_again : ∃ tr s, (machine (fun _ => true) true).Run
    (Machine.both Fresh (Recorded fun _ => true)) tr s ∧ OneEach s ∧
    s.client.tracked = [⟨"wallet", "sent", 2, true⟩] ∧
    (s.emitted "wallet" "sent" []).length = 1 := by
  have h := Machine.exec_run (M := machine (fun _ => true) true)
    (G := Machine.both Fresh (Recorded fun _ => true))
    [.onModuleEvent "wallet" "sent" 1, .subscribed, .onModuleEvent "wallet" "sent" 2,
      .drop ⟨"wallet", "sent", 1, false⟩, .onModuleEvent "wallet" "sent" 2,
      .abandoned ⟨"wallet", "sent", 1, false⟩, .subscribed, .arm "wallet" 2,
      .onModuleEvent "wallet" "sent" 3] rfl
  exact ⟨_, _, h, (one_each_iff _ _).1 _ _ h, rfl, rfl⟩

/-- The `armed(false)` of a dropped subscription comes when the event has been subscribed to again,
and the third call makes a second subscription. -/
theorem late_callback : ∃ tr s, (machine (fun _ => true) true).Run Fresh tr s ∧ ¬ OneEach s ∧
    (s.emitted "wallet" "sent" []).length = 2 := by
  have h := Machine.exec_run (M := machine (fun _ => true) true) (G := Fresh)
    [.onModuleEvent "wallet" "sent" 1, .subscribed, .drop ⟨"wallet", "sent", 1, false⟩,
      .onModuleEvent "wallet" "sent" 2, .subscribed, .abandoned ⟨"wallet", "sent", 1, false⟩,
      .onModuleEvent "wallet" "sent" 3, .subscribed, .arm "wallet" 2, .arm "wallet" 3] rfl
  refine ⟨_, _, h, fun hone => ?_, rfl⟩
  exact absurd (hone.tracked ("wallet", "sent")) (by decide)

end LogosViewRuntime.ModuleEvents
