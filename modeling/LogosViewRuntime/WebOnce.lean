import LogosViewRuntime.Lib.OneShot
import LogosViewRuntime.WebBridge
import Std.Data.String.ToNat

/-! # Web calls are exactly-once

Seen from one request id a run of the web bridge is a path of the one-shot automaton: `record`
issues the call, the three places that dispatch send it, `deliver` settles it and fires its
callback.  `Stands` reads the phase off the pending map; the entry's `dispatched` flag is the only
thing that remembers a send, and the erase before the callback the only thing that remembers an
answer.  What a payload may be is carried along in `Once.sourced`. -/

namespace LogosViewRuntime.Web

open Reactive OneShot

/-! ### One call in a run -/

/-- What an observation means for one call. -/
def lifeEvent (id : String) : Obs → Option (Event String)
  | .issued caller _ => if caller.requestId = id then some .issue else none
  | .call i _ _ _ _ _ => if i = id then some .send else none
  | .completed _ _ => none
  | .answered i payload => if i = id then some (.settle payload) else none
  | .invoked i payload => if i = id then some (.fire payload) else none

def lifeOf (id : String) (tr : List Obs) : List (Event String) := tr.filterMap (lifeEvent id)

/-- The payloads the callback of a call was invoked with. -/
def invocations (id : String) (tr : List Obs) : List String := tr.filterMap fun
  | .invoked i payload => if i = id then some payload else none
  | _ => none

/-- How often the `call` message of a call was sent. -/
def callsSent (id : String) (tr : List Obs) : ℕ := tr.countP fun
  | .call i _ _ _ _ _ => i = id
  | _ => false

/-- The calls that were answered. -/
def answeredIds (tr : List Obs) : List String := tr.filterMap fun
  | .answered id _ => some id
  | _ => none

def Issued (caller : Caller) (tr : List Obs) : Prop := ∃ callback, .issued caller callback ∈ tr

/-- The bridge's own error payloads for a call. -/
def ownErrors (caller : Caller) : List String :=
  [timedOut caller, noBackend caller, noBackendRouter caller]

/-- `payload` was passed to `onCallCompleted` under `id` or is the bridge's own for that call. -/
def Sourced (id payload : String) (tr : List Obs) : Prop :=
  .completed id payload ∈ tr ∨
    ∃ caller, caller.requestId = id ∧ Issued caller tr ∧ payload ∈ ownErrors caller

@[simp] theorem lifeOf_append (id : String) (tr os : List Obs) :
    lifeOf id (tr ++ os) = lifeOf id tr ++ lifeOf id os := List.filterMap_append

@[simp] theorem issuedIds_append (tr os : List Obs) :
    issuedIds (tr ++ os) = issuedIds tr ++ issuedIds os := List.filterMap_append

@[simp] theorem answeredIds_append (tr os : List Obs) :
    answeredIds (tr ++ os) = answeredIds tr ++ answeredIds os := List.filterMap_append

theorem Issued.append {caller : Caller} {tr : List Obs} (h : Issued caller tr) (os : List Obs) :
    Issued caller (tr ++ os) := h.imp fun _ => List.mem_append_left os

theorem mem_issuedIds {id : String} {tr : List Obs} :
    id ∈ issuedIds tr ↔ ∃ caller, caller.requestId = id ∧ Issued caller tr := by
  simp only [issuedIds, List.mem_filterMap]
  constructor
  · rintro ⟨o, ho, hid⟩
    cases o with
    | issued caller callback => exact ⟨caller, Option.some.inj hid, callback, ho⟩
    | _ => simp at hid
  · rintro ⟨caller, rfl, callback, h⟩
    exact ⟨_, h, rfl⟩

theorem fires_lifeOf (id : String) (tr : List Obs) : fires (lifeOf id tr) = invocations id tr := by
  apply fires_filterMap
  intro o
  cases o with
  | issued caller _ => by_cases h : caller.requestId = id <;> simp [lifeEvent, h, fires]
  | call i _ _ _ _ _ | answered i _ | invoked i _ =>
      by_cases h : i = id <;> simp [lifeEvent, h, fires]
  | completed _ _ => rfl

theorem sends_lifeOf (id : String) (tr : List Obs) : sends (lifeOf id tr) = callsSent id tr := by
  apply sends_filterMap
  intro o
  cases o with
  | issued caller _ => by_cases h : caller.requestId = id <;> simp [lifeEvent, h, sends]
  | call i _ _ _ _ _ | answered i _ | invoked i _ =>
      by_cases h : i = id <;> simp [lifeEvent, h, sends]
  | completed _ _ => rfl

/-! ### The books of one call -/

/-- The pending entry `pending` is what the call `id` of the run recorded. -/
def Records (tr : List Obs) (id : String) (pending : PendingCall) : Prop :=
  .issued ⟨id, pending.module, pending.method⟩ pending.callback ∈ tr ∧
    ∀ caller callback, .issued caller callback ∈ tr → caller.requestId = id →
      callback = pending.callback

/-- The bridge's books about one call, by where the call stands. -/
def Stands (tr : List Obs) (s : Bridge) (id : String) : Phase String → Prop
  | .fresh => s.pending.lookup id = none ∧ id ∉ issuedIds tr ∧ id ∉ answeredIds tr
  | .waiting sent => id ∉ answeredIds tr ∧
      ∃ pending, s.pending.lookup id = some pending ∧ pending.dispatched = sent ∧
        Records tr id pending
  | .settled _ => s.pending.lookup id = none ∧ id ∈ issuedIds tr ∧ id ∈ answeredIds tr ∧
      ∀ caller callback, .issued caller callback ∈ tr → caller.requestId = id →
        callback.isCallable = false
  | .finished => s.pending.lookup id = none ∧ id ∈ issuedIds tr ∧ id ∈ answeredIds tr

def Books (tr : List Obs) (s : Bridge) (id : String) : Prop :=
  ∃ phase, Path .fresh (lifeOf id tr) phase ∧ Stands tr s id phase

/-- Observations about the call `id`. -/
def About (id : String) : Obs → Prop
  | .issued caller _ => caller.requestId = id
  | .call i _ _ _ _ _ | .answered i _ | .invoked i _ => i = id
  | .completed _ _ => False

theorem not_about {id : String} {os : List Obs} (h : ∀ o ∈ os, ¬ About id o) :
    lifeOf id os = [] ∧ id ∉ issuedIds os ∧ id ∉ answeredIds os := by
  refine ⟨List.filterMap_eq_nil_iff.mpr fun o ho => ?_, fun hm => ?_, fun hm => ?_⟩
  · have := h o ho
    cases o <;> simp_all [About, lifeEvent]
  · obtain ⟨o, ho, he⟩ := List.mem_filterMap.mp hm
    have := h o ho
    cases o <;> simp_all [About]
  · obtain ⟨o, ho, he⟩ := List.mem_filterMap.mp hm
    have := h o ho
    cases o <;> simp_all [About]

variable {tr os : List Obs} {s s' : Bridge}

/-- A step that does not concern the call. -/
theorem Books.other {id : String} (h : Books tr s id) (hos : ∀ o ∈ os, ¬ About id o)
    (hlookup : s'.pending.lookup id = s.pending.lookup id) : Books (tr ++ os) s' id := by
  obtain ⟨phase, hpath, hstands⟩ := h
  obtain ⟨hlife, hissued, hanswered⟩ := not_about hos
  have hold : ∀ caller callback, .issued caller callback ∈ tr ++ os → caller.requestId = id →
      .issued caller callback ∈ tr := fun caller callback hm hid =>
    (List.mem_append.mp hm).resolve_right fun ho => hos _ ho hid
  refine ⟨phase, by rwa [lifeOf_append, hlife, List.append_nil], ?_⟩
  cases phase with
  | fresh =>
      obtain ⟨hl, hi, ha⟩ := hstands
      exact ⟨hlookup.trans hl, by simp [hi, hissued], by simp [ha, hanswered]⟩
  | waiting sent =>
      obtain ⟨ha, pending, hl, hd, hm, hu⟩ := hstands
      exact ⟨by simp [ha, hanswered], pending, hlookup.trans hl, hd, List.mem_append_left _ hm,
        fun caller callback hm hid => hu caller callback (hold _ _ hm hid) hid⟩
  | settled payload =>
      obtain ⟨hl, hi, ha, hu⟩ := hstands
      exact ⟨hlookup.trans hl, by simp [hi], by simp [ha],
        fun caller callback hm hid => hu caller callback (hold _ _ hm hid) hid⟩
  | finished =>
      obtain ⟨hl, hi, ha⟩ := hstands
      exact ⟨hlookup.trans hl, by simp [hi], by simp [ha]⟩

/-- A pending call is sent, if it was not. -/
theorem Books.dispatch {id : String} {pending : PendingCall} (h : Books tr s id)
    (hlookup : s.pending.lookup id = some pending) (hunsent : pending.dispatched = false)
    (module method : String) :
    Books (tr ++ (s.dispatch id pending module method).2) (s.dispatch id pending module method).1
      id := by
  obtain ⟨phase, hpath, hstands⟩ := h
  cases phase with
  | waiting sent =>
      obtain ⟨ha, p, hl, hd, hm, hu⟩ := hstands
      obtain rfl := Option.some.inj (hlookup.symm.trans hl)
      rw [← hd, hunsent] at hpath
      refine ⟨.waiting true, ?_, ?_, { pending with dispatched := true }, ?_, rfl,
        List.mem_append_left _ hm, fun caller callback hm hid => hu caller callback ?_ hid⟩
      · rw [lifeOf_append]
        simpa [Bridge.dispatch, lifeOf, lifeEvent] using hpath.snoc .send
      · simpa [Bridge.dispatch, answeredIds] using ha
      · exact AList.lookup_insert _
      · simpa [Bridge.dispatch] using hm
  | fresh => exact absurd (hlookup.symm.trans hstands.1) nofun
  | settled payload => exact absurd (hlookup.symm.trans hstands.1) nofun
  | finished => exact absurd (hlookup.symm.trans hstands.1) nofun

/-- A pending call is taken out and its callback invoked. -/
theorem Books.deliver {id : String} {pending : PendingCall} (h : Books tr s id)
    (hlookup : s.pending.lookup id = some pending) (payload : String) :
    Books (tr ++ .answered id payload ::
        if pending.callback.isCallable then [.invoked id payload] else [])
      { s with pending := s.pending.erase id } id := by
  obtain ⟨phase, hpath, hstands⟩ := h
  cases phase with
  | waiting sent =>
      obtain ⟨ha, p, hl, hd, hm, hu⟩ := hstands
      obtain rfl := Option.some.inj (hlookup.symm.trans hl)
      have hissued : id ∈ issuedIds tr := mem_issuedIds.mpr ⟨_, rfl, _, hm⟩
      split_ifs with hcallable
      · refine ⟨.finished, ?_, AList.lookup_erase _ _, by simp [hissued], by simp [answeredIds]⟩
        rw [lifeOf_append]
        simpa [lifeOf, lifeEvent] using hpath.append
          (.cons (.settle sent payload) (.cons (.fire payload) (.nil _)))
      · refine ⟨.settled payload, ?_, AList.lookup_erase _ _, by simp [hissued],
          by simp [answeredIds], fun caller callback hm hid => ?_⟩
        · rw [lifeOf_append]
          simpa [lifeOf, lifeEvent] using hpath.snoc (.settle sent payload)
        · rw [hu caller callback (by simpa using hm) hid]
          simpa using hcallable
  | fresh => exact absurd (hlookup.symm.trans hstands.1) nofun
  | settled payload => exact absurd (hlookup.symm.trans hstands.1) nofun
  | finished => exact absurd (hlookup.symm.trans hstands.1) nofun

/-- A fresh id is recorded. -/
theorem Books.record {caller : Caller} (h : Books tr s caller.requestId)
    (hfresh : caller.requestId ∉ issuedIds tr) (argsJson : String) (callback : QJSValue)
    (timeoutMs : ℤ) :
    Books (tr ++ [.issued caller callback]) (s.record caller argsJson callback timeoutMs)
      caller.requestId := by
  obtain ⟨phase, hpath, hstands⟩ := h
  cases phase with
  | fresh =>
      obtain ⟨hl, hi, ha⟩ := hstands
      refine ⟨.waiting false, ?_, by simpa [answeredIds] using ha, _, AList.lookup_insert _, rfl,
        by simp, fun caller' callback' hm hid => ?_⟩
      · rw [lifeOf_append]
        simpa [lifeOf, lifeEvent] using hpath.snoc .issue
      · obtain hm | hm := List.mem_append.mp hm
        · exact absurd (mem_issuedIds.mpr ⟨caller', hid, _, hm⟩) hfresh
        · exact (Obs.issued.inj (List.mem_singleton.mp hm)).2
  | waiting sent =>
      obtain ⟨-, p, -, -, hm, -⟩ := hstands
      exact absurd (mem_issuedIds.mpr ⟨_, rfl, _, hm⟩) hfresh
  | settled payload => exact absurd hstands.2.1 hfresh
  | finished => exact absurd hstands.2.1 hfresh

/-! ### Where payloads come from -/

/-- Every payload a callback received had a source by then. -/
def AllSourced (tr : List Obs) : Prop :=
  ∀ t₁ t₂ id payload, tr = t₁ ++ .invoked id payload :: t₂ → Sourced id payload t₁

theorem AllSourced.append (h : AllSourced tr)
    (hos : ∀ u v id payload, os = u ++ .invoked id payload :: v → Sourced id payload (tr ++ u)) :
    AllSourced (tr ++ os) := by
  intro t₁ t₂ id payload htr
  obtain ⟨u, rfl, hos'⟩ | ⟨u, rfl, hu⟩ := List.append_eq_append_iff.mp htr
  · exact hos u t₂ id payload hos'
  · cases u with
    | nil =>
        have := hos [] t₂ id payload hu.symm
        rwa [List.append_nil, List.append_nil] at this
    | cons o u =>
        obtain ⟨rfl, rfl⟩ := List.cons.inj hu
        exact h t₁ u id payload rfl

theorem AllSourced.quiet (h : AllSourced tr) (hos : ∀ id payload, .invoked id payload ∉ os) :
    AllSourced (tr ++ os) :=
  h.append fun u v id payload he => absurd (he ▸ by simp) (hos id payload)

/-! ### The invariant -/

structure Once (tr : List Obs) (s : Bridge) : Prop where
  counted : s.nextRequestId = (issuedIds tr).length
  few : (issuedIds tr).length < 2 ^ 64
  numbered : ∀ id ∈ issuedIds tr, ∃ n < (issuedIds tr).length, id = Nat.repr (n + 1)
  books : ∀ id, Books tr s id
  timers : ∀ caller ∈ s.timers, Issued caller tr
  frames : ∀ frame ∈ s.stack, ∀ caller ∈ frame.caller, Issued caller tr
  sourced : AllSourced tr

namespace Once

theorem initial (node : Bool) : Once [] { node } where
  counted := rfl
  few := by decide
  numbered _ hm := by cases hm
  books id := ⟨.fresh, .nil _, rfl, List.not_mem_nil, List.not_mem_nil⟩
  timers _ hm := by cases hm
  frames _ hm := by cases hm
  sourced t₁ t₂ id payload h := by simp at h

/-- A step that issues nothing: it is enough to look at the books. -/
theorem extend (h : Once tr s) (hissued : issuedIds os = [])
    (hcounted : s'.nextRequestId = s.nextRequestId) (hbooks : ∀ id, Books (tr ++ os) s' id)
    (htimers : ∀ caller ∈ s'.timers, caller ∈ s.timers)
    (hframes : ∀ frame ∈ s'.stack, ∀ caller ∈ frame.caller, Issued caller tr)
    (hsourced : AllSourced (tr ++ os)) : Once (tr ++ os) s' := by
  have heq : issuedIds (tr ++ os) = issuedIds tr := by
    rw [issuedIds_append, hissued, List.append_nil]
  exact ⟨by rw [hcounted, heq]; exact h.counted, by rw [heq]; exact h.few,
    by rw [heq]; exact h.numbered, hbooks, fun caller hm => (h.timers caller (htimers caller hm)).append os,
    fun frame hm caller hc => (hframes frame hm caller hc).append os, hsourced⟩

/-- A step nobody outside the bridge sees and that leaves the pending calls alone. -/
theorem quiet (h : Once tr s) (hcounted : s'.nextRequestId = s.nextRequestId)
    (hpending : s'.pending = s.pending) (htimers : ∀ caller ∈ s'.timers, caller ∈ s.timers)
    (hframes : ∀ frame ∈ s'.stack, ∀ caller ∈ frame.caller, Issued caller tr) : Once tr s' := by
  have : Once (tr ++ []) s' := h.extend rfl hcounted
    (fun id => (h.books id).other (by simp) (by rw [hpending])) htimers hframes
    (by simpa using h.sourced)
  rwa [List.append_nil] at this

theorem deliver (h : Once tr s) {id payload : String} (hsource : Sourced id payload tr) :
    Once (tr ++ (s.deliver id payload).2) (s.deliver id payload).1 := by
  unfold Bridge.deliver
  cases hlookup : s.pending.lookup id with
  | none => rwa [List.append_nil]
  | some pending =>
      dsimp only
      have hbooks := (h.books id).deliver hlookup payload
      generalize pending.callback.isCallable = callable at hbooks
      have hother : ∀ j ≠ id, Books (tr ++ .answered id payload ::
          if callable then [.invoked id payload] else []) { s with pending := s.pending.erase id } j := by
        refine fun j hj => (h.books j).other (fun o ho => ?_) (AList.lookup_erase_ne hj)
        cases callable
        · simp at ho
          simp [ho, About, Ne.symm hj]
        · simp at ho
          rcases ho with rfl | rfl <;> simp [About, Ne.symm hj]
      refine h.extend (by cases callable <;> rfl) rfl (fun j => ?_) (fun _ hm => hm) h.frames
        (h.sourced.append fun u v i p he => ?_)
      · by_cases hj : j = id
        · exact hj ▸ hbooks
        · exact hother j hj
      · -- the only invocation is the one with `payload`, and everything before it is kept
        have hm : Obs.invoked i p ∈ Obs.answered id payload ::
            if callable then [.invoked id payload] else [] := he ▸ by simp
        obtain ⟨rfl, rfl⟩ : i = id ∧ p = payload := by
          cases callable
          · simp at hm
          · simpa using hm
        exact hsource.imp (List.mem_append_left _) fun ⟨caller, hid, hi, hp⟩ =>
          ⟨caller, hid, hi.append _, hp⟩

theorem dispatch (h : Once tr s) {id : String} {pending : PendingCall}
    (hlookup : s.pending.lookup id = some pending) (hunsent : pending.dispatched = false)
    (module method : String) :
    Once (tr ++ (s.dispatch id pending module method).2)
      (s.dispatch id pending module method).1 := by
  refine h.extend rfl rfl (fun j => ?_) (fun _ hm => hm) h.frames
    (h.sourced.quiet (by simp [Bridge.dispatch]))
  by_cases hj : j = id
  · subst hj
    exact (h.books j).dispatch hlookup hunsent module method
  · exact (h.books j).other (by simp [Bridge.dispatch, About, Ne.symm hj]) (AList.lookup_insert_ne hj)

theorem afterRouter (h : Once tr s) {caller : Caller} (hissued : Issued caller tr) :
    Once (tr ++ (s.afterRouter caller).2) (s.afterRouter caller).1 := by
  unfold Bridge.afterRouter
  split
  · exact h.deliver (.inr ⟨caller, rfl, hissued, by simp [ownErrors]⟩)
  · split
    · rwa [List.append_nil]
    · rename_i pending hlookup
      split_ifs with hsent
      · rwa [List.append_nil]
      · rwa [List.append_nil]
      · exact h.dispatch hlookup (by simpa using hsent) _ _

theorem resume (h : Once tr s) {caller : Option Caller}
    (hissued : ∀ c ∈ caller, Issued c tr) :
    Once (tr ++ (s.resume caller).2) (s.resume caller).1 := by
  cases caller with
  | none => simpa [Bridge.resume] using h
  | some caller => exact h.afterRouter (hissued caller rfl)

theorem drain (h : Once tr s) {caller : Option Caller} (hissued : ∀ c ∈ caller, Issued c tr)
    (waiting : List String) :
    Once (tr ++ (s.drain caller waiting).2) (s.drain caller waiting).1 := by
  induction waiting with
  | nil => exact h.resume hissued
  | cons id waiting ih =>
      rw [Bridge.drain]
      split
      · exact ih
      · rename_i pending hlookup
        split_ifs with hsent
        · exact ih
        · have hpushed : Once tr { s with stack := ⟨waiting, caller⟩ :: s.stack } := by
            refine h.quiet rfl rfl (fun _ hm => hm) fun frame hm c hc => ?_
            obtain rfl | hm := List.mem_cons.mp hm
            · exact hissued c hc
            · exact h.frames frame hm c hc
          exact hpushed.dispatch hlookup (by simpa using hsent) _ _

theorem onRouterInitialized (h : Once tr s) (caller : Option Caller)
    (hissued : ∀ c ∈ caller, Issued c tr) (connects : Bool) (keys : List String) :
    Once (tr ++ (s.onRouterInitialized connects keys caller).2)
      (s.onRouterInitialized connects keys caller).1 := by
  unfold Bridge.onRouterInitialized
  split_ifs
  · exact h.resume hissued
  · have hconnected : Once tr { s with routerConnected := true } :=
      h.quiet rfl rfl (fun _ hm => hm) h.frames
    exact hconnected.drain hissued keys

theorem ensureRouter (h : Once tr s) {caller : Caller} (hissued : Issued caller tr)
    (acquired : Option Replica) (connects : Bool) (keys : List String) :
    Once (tr ++ (s.ensureRouter acquired connects keys caller).2)
      (s.ensureRouter acquired connects keys caller).1 := by
  have hacquired : ∀ router, Once tr { s with router } := fun router =>
    h.quiet rfl rfl (fun _ hm => hm) h.frames
  unfold Bridge.ensureRouter
  split_ifs
  · exact h.afterRouter hissued
  · cases acquired with
    | none => exact (hacquired none).afterRouter hissued
    | some router =>
        dsimp only
        split_ifs
        · exact (hacquired _).onRouterInitialized (some caller) (by simpa using hissued) connects keys
        · exact (hacquired _).afterRouter hissued

/-- The id of the next call is a new one. -/
theorem fresh (h : Once tr s) (hfew : (issuedIds tr).length + 1 < 2 ^ 64) (module method : String) :
    (s.nextCaller module method).requestId = Nat.repr ((issuedIds tr).length + 1) ∧
      (s.nextCaller module method).requestId ∉ issuedIds tr := by
  have hid : (s.nextCaller module method).requestId = Nat.repr ((issuedIds tr).length + 1) := by
    rw [Bridge.nextCaller, h.counted, Nat.mod_eq_of_lt hfew]
  refine ⟨hid, fun hm => ?_⟩
  obtain ⟨n, hn, he⟩ := h.numbered _ hm
  rw [hid, Nat.repr_inj] at he
  omega

theorem record (h : Once tr s) (hfew : (issuedIds tr).length + 1 < 2 ^ 64)
    (module method argsJson : String) (callback : QJSValue) (timeoutMs : ℤ) :
    Once (tr ++ [.issued (s.nextCaller module method) callback])
      (s.record (s.nextCaller module method) argsJson callback timeoutMs) := by
  obtain ⟨hid, hfresh⟩ := h.fresh hfew module method
  have hlength : (issuedIds (tr ++ [.issued (s.nextCaller module method) callback])).length =
      (issuedIds tr).length + 1 := by simp [issuedIds]
  refine ⟨?_, by rwa [hlength], fun id hm => ?_, fun id => ?_, fun caller hm => ?_,
    fun frame hm caller hc => (h.frames frame hm caller hc).append _, h.sourced.quiet (by simp)⟩
  · rw [hlength, Bridge.record, h.counted, Nat.mod_eq_of_lt hfew]
  · rw [hlength]
    rw [issuedIds_append, List.mem_append] at hm
    obtain hm | hm := hm
    · obtain ⟨n, hn, he⟩ := h.numbered id hm
      exact ⟨n, by omega, he⟩
    · obtain rfl : id = (s.nextCaller module method).requestId := by simpa [issuedIds] using hm
      exact ⟨_, Nat.lt_succ_self _, hid⟩
  · by_cases he : id = (s.nextCaller module method).requestId
    · subst he
      exact (h.books _).record hfresh argsJson callback timeoutMs
    · exact (h.books id).other (by simp [About, Ne.symm he]) (AList.lookup_insert_ne he)
  · have hnew : Issued (s.nextCaller module method)
        (tr ++ [.issued (s.nextCaller module method) callback]) := ⟨callback, by simp⟩
    simp only [Bridge.record] at hm
    split_ifs at hm
    · obtain rfl | hm := List.mem_cons.mp hm
      · exact hnew
      · exact (h.timers caller hm).append _
    · exact (h.timers caller hm).append _

theorem callModuleAsync (h : Once tr s) (hfew : (issuedIds tr).length + 1 < 2 ^ 64)
    (module method argsJson : String) (callback : QJSValue) (timeoutMs : ℤ)
    (acquired : Option Replica) (connects : Bool) (keys : List String) :
    Once (tr ++ (s.callModuleAsync module method argsJson callback timeoutMs acquired connects
        keys).2)
      (s.callModuleAsync module method argsJson callback timeoutMs acquired connects keys).1 := by
  have hrecord := h.record hfew module method argsJson callback timeoutMs
  have hissued : Issued (s.nextCaller module method)
      (tr ++ [.issued (s.nextCaller module method) callback]) := ⟨callback, by simp⟩
  simp only [Bridge.callModuleAsync]
  rw [List.append_cons]
  split_ifs
  · exact hrecord.deliver (.inr ⟨_, rfl, hissued, by simp [ownErrors]⟩)
  · exact hrecord.ensureRouter hissued acquired connects keys

/-- An answer is heard of. -/
theorem completed (h : Once tr s) (id payload : String) : Once (tr ++ [.completed id payload]) s :=
  h.extend rfl rfl (fun j => (h.books j).other (by simp [About]) rfl) (fun _ hm => hm) h.frames
    (h.sourced.quiet (by simp))

theorem onCallCompleted (h : Once tr s) (id payload : String) :
    Once (tr ++ (s.onCallCompleted id payload).2) (s.onCallCompleted id payload).1 := by
  have : Once (tr ++ [.completed id payload] ++ (s.deliver id payload).2) (s.deliver id payload).1 :=
    (h.completed id payload).deliver (.inl (by simp))
  rwa [List.append_assoc] at this

theorem timeout (h : Once tr s) {caller : Caller} (hm : caller ∈ s.timers) :
    Once (tr ++ (s.timeout caller).2) (s.timeout caller).1 := by
  have herased : Once tr { s with timers := s.timers.erase caller } :=
    h.quiet rfl rfl (fun _ hm => List.mem_of_mem_erase hm) h.frames
  exact herased.deliver (.inr ⟨caller, rfl, h.timers caller hm, by simp [ownErrors]⟩)

/-- **Every step keeps the books.** -/
theorem step {argsToJson : List QVariant → String} {a : Action} (h : Once tr s)
    (hassumed : Assumed tr s a) (hs : step argsToJson s a = some (s', os)) :
    Once (tr ++ os) s' := by
  cases step_cases hs with
  | callModuleAsync module method args callback timeoutMs acquired connects keys =>
      exact h.callModuleAsync hassumed module method (argsToJson args) callback timeoutMs
        acquired connects keys
  | initialized connects keys =>
      have hrouter : Once tr { s with router := some ⟨true, true⟩ } :=
        h.quiet rfl rfl (fun _ hm => hm) h.frames
      exact hrouter.onRouterInitialized none (by simp) connects keys
  | connectionLost =>
      rw [List.append_nil]
      exact h.quiet rfl rfl (fun _ hm => hm) h.frames
  | nodeDestroyed =>
      rw [List.append_nil]
      exact h.quiet rfl rfl (fun _ hm => hm) h.frames
  | onCallCompleted id payload =>
      exact h.onCallCompleted id payload
  | timeout caller hm =>
      exact h.timeout hm
  | ret frame stack hstack =>
      have hpopped : Once tr { s with stack } :=
        h.quiet rfl rfl (fun _ hm => hm) fun f hm => h.frames f (by simp [hstack, hm])
      exact hpopped.drain (h.frames frame (by simp [hstack])) frame.waiting

end Once

theorem run_once {argsToJson : List QVariant → String} {node : Bool}
    (h : (machine argsToJson node).Run Assumed tr s) : Once tr s :=
  h.invariant (Once.initial node) Once.step

/-- A call that is pending is one that was issued and not answered. -/
theorem Once.mem_pendingCallIds (h : Once tr s) (id : String) :
    id ∈ s.pendingCallIds ↔ id ∈ issuedIds tr ∧ id ∉ answeredIds tr := by
  rw [Bridge.pendingCallIds, ← AList.mem_keys, ← AList.lookup_isSome]
  obtain ⟨phase, -, hstands⟩ := h.books id
  cases phase with
  | fresh => simp [hstands.1, hstands.2.1]
  | waiting sent =>
      obtain ⟨ha, pending, hl, -, hm, -⟩ := hstands
      simp [hl, ha, mem_issuedIds.mpr ⟨_, rfl, _, hm⟩]
  | settled payload => simp [hstands.1, hstands.2.2.1]
  | finished => simp [hstands.1, hstands.2.2]

/-- A call that was sent was issued. -/
theorem Once.issued_of_sent (h : Once tr s) {id : String} (hsent : 0 < callsSent id tr) :
    id ∈ issuedIds tr := by
  obtain ⟨phase, hpath, hstands⟩ := h.books id
  cases phase with
  | fresh =>
      rw [← sends_lifeOf, hpath.of_fresh.2] at hsent
      omega
  | waiting sent =>
      obtain ⟨-, pending, -, -, hm, -⟩ := hstands
      exact mem_issuedIds.mpr ⟨_, rfl, _, hm⟩
  | settled payload => exact hstands.2.1
  | finished => exact hstands.2.1

theorem Once.callsSent_le (h : Once tr s) (id : String) : callsSent id tr ≤ 1 := by
  obtain ⟨phase, hpath, -⟩ := h.books id
  rw [← sends_lifeOf]
  exact hpath.sends_le

theorem cancel_notMem (id : String) (tr : List Obs) : .cancel ∉ lifeOf id tr := by
  intro hm
  obtain ⟨o, -, he⟩ := List.mem_filterMap.mp hm
  cases o with
  | completed _ _ => cases he
  | issued _ _ | call _ _ _ _ _ _ | answered _ _ | invoked _ _ =>
      simp only [lifeEvent] at he
      split_ifs at he
      simp at he

/-- A callable call that was answered has had its callback invoked. -/
theorem Once.invoked (h : Once tr s) {caller : Caller} {callback : QJSValue}
    (hissued : .issued caller callback ∈ tr) (hcallable : callback.isCallable = true)
    (hanswered : caller.requestId ∈ answeredIds tr) :
    (invocations caller.requestId tr).length = 1 := by
  obtain ⟨phase, hpath, hstands⟩ := h.books caller.requestId
  cases phase with
  | fresh => exact absurd hanswered hstands.2.2
  | waiting sent => exact absurd hanswered hstands.1
  | settled payload =>
      rw [hstands.2.2.2 caller callback hissued rfl] at hcallable
      cases hcallable
  | finished =>
      rw [← fires_lifeOf]
      exact hpath.fired nofun (cancel_notMem _ tr)

/-- **Web `callModuleAsync` is exactly-once.**  In every run each call's callback is invoked at
most once, and exactly once when the call was answered and the callback is callable; its `call`
message is sent at most once and not after the callback; the payload is one that `onCallCompleted`
was given under that id or the bridge's own; and the pending ids are the issued and unanswered
ones. -/
theorem web_call_once {argsToJson : List QVariant → String} {node : Bool}
    (h : (machine argsToJson node).Run Assumed tr s) :
    (∀ id, (invocations id tr).length ≤ 1 ∧ callsSent id tr ≤ 1) ∧
    (∀ caller callback, .issued caller callback ∈ tr → callback.isCallable = true →
      caller.requestId ∈ answeredIds tr → (invocations caller.requestId tr).length = 1) ∧
    (∀ id payload t₁ t₂, tr = t₁ ++ .invoked id payload :: t₂ →
      callsSent id t₂ = 0 ∧ Sourced id payload t₁) ∧
    (∀ id, id ∈ s.pendingCallIds ↔ id ∈ issuedIds tr ∧ id ∉ answeredIds tr) := by
  have ho := run_once h
  refine ⟨fun id => ?_, fun caller callback => ho.invoked, fun id payload t₁ t₂ htr => ⟨?_, ?_⟩,
    ho.mem_pendingCallIds⟩
  · obtain ⟨phase, hpath, -⟩ := ho.books id
    rw [← fires_lifeOf, ← sends_lifeOf]
    exact ⟨hpath.fires_length_le, hpath.sends_le⟩
  · obtain ⟨phase, hpath, -⟩ := ho.books id
    have hlife : lifeOf id tr = lifeOf id t₁ ++ .fire payload :: lifeOf id t₂ := by
      rw [htr, lifeOf_append]
      simp [lifeOf, lifeEvent]
    rw [hlife] at hpath
    rw [← sends_lifeOf]
    exact hpath.no_send_after_fire
  · exact ho.sourced t₁ t₂ id payload htr

/-- Two calls: one before the router is there, drained when the second call acquires it. -/
theorem web_call_once_drained_by_acquire :
    ∃ tr s, (machine (fun _ => "[]") true).Run Assumed tr s ∧ callsSent "2" tr = 1 ∧
      s.pendingCallIds = ["2"] ∧ (invocations "1" tr).length = 1 := by
  have h := Machine.exec_run (M := machine (fun _ => "[]") true) (G := Assumed)
    [.callModuleAsync "keystore" "unlock" [] ⟨1, true⟩ 0 none true ["1"],
      .callModuleAsync "keystore" "lock" [] ⟨2, true⟩ 5000 (some ⟨true, true⟩) true ["2"],
      .ret] rfl
  exact ⟨_, _, h, rfl, rfl, (web_call_once h).2.1 ⟨"1", "keystore", "unlock"⟩ ⟨1, true⟩
    (by decide) rfl (by decide)⟩

end LogosViewRuntime.Web
