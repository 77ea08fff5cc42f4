import LogosViewRuntime.ViewReady

/-! # How a desktop view comes by its backend

A view is written once for both containers: it connects to `viewModuleReadyChanged`, asks `module`
when it is completed and takes its backend from `module` again whenever the signal says that its
module is ready.  The desktop bridge drops replicas, so what such a view holds may be out of date;
but a replica becomes ready under the signal only, so no view of a module that is ready holds
anything but the replica of that module, as long as a `module` that emitted returns what is cached
when it returns (`desktop_views_get_their_backend`).

* A slot calls `module` after the signal was emitted, and that call may emit again.  A `module` that
  emits returns when the slots on its emission have.  `calls` are the slots of views that have yet
  to call and the calls that have yet to return, the innermost emission first.
* What the bridge and its host do in the meantime, slots of the host included, is any other step. -/

namespace LogosViewRuntime.ViewModules

open Reactive

variable {s s' : Bridge} {tr os : List Obs} {m : String} {d : ℕ}

/-! ### How a module becomes ready -/

/-- After a step a module is ready only if it was, with the same replica, or if the signal says
so. -/
def Rises (s s' : Bridge) (os : List Obs) : Prop := ∀ m, s'.isViewModuleReady m = true →
  s.isViewModuleReady m = true ∧ s'.cache.lookup (.replica m) = s.cache.lookup (.replica m) ∨
    ∃ now, .viewModuleReadyChanged m true now ∈ os

theorem Rises.refl (s : Bridge) (os : List Obs) : Rises s s os := fun _ h => .inl ⟨h, rfl⟩

theorem Grows.rises (h : Coherent s) (hgrows : Grows s s') (os : List Obs) : Rises s s' os :=
  fun m hready => .inl ⟨(hgrows.isViewModuleReady h m) ▸ hready, hgrows.acquired _ m rfl⟩

theorem Releases.rises {p : Slot → Prop} (h : Releases p s s') (os : List Obs) : Rises s s' os := by
  intro m hready
  by_cases hp : p (.replica m)
  · rw [isViewModuleReady_none (h.gone _ hp)] at hready
    cases hready
  · exact .inl ⟨(h.isViewModuleReady m hp) ▸ hready, h.kept _ hp⟩

theorem Rises.trans {s'' : Bridge} (h : Rises s s' []) (h' : Rises s' s'' os) : Rises s s'' os := by
  intro m hready
  obtain ⟨hready', he'⟩ | htold := h' m hready
  · obtain ⟨hbefore, he⟩ | ⟨now, hm⟩ := h m hready'
    · exact .inl ⟨hbefore, he'.trans he⟩
    · cases hm
  · exact .inr htold

/-- An object that is no replica changes nothing. -/
theorem rises_store (h : Coherent s) {object : Object} (hslot : ∀ m, object.slot ≠ .replica m)
    (os : List Obs) : Rises s (s.store object) os := by
  intro m hready
  rw [isViewModuleReady_store h (hslot m)] at hready
  exact .inl ⟨hready, lookup_store_ne (Ne.symm (hslot m))⟩

theorem rises_module (h : Coherent s) (m : String) (load : Load)
    (acquired : Option (Option State)) :
    Rises s (s.module m load acquired).1 (s.module m load acquired).2 := by
  obtain ⟨s₁, r, -, hgrows, -, he⟩ | ⟨s₁, node, factory, state, hs₁, hgrows, -, -, -, -, he⟩ :=
    h.module_cases m load acquired
  · rw [he]
    exact hgrows.rises h _
  · rw [he]
    refine (hgrows.rises h []).trans fun m' hready => ?_
    by_cases hm : m' = m
    · subst hm
      rw [isViewModuleReady_storeReplica, decide_eq_true_eq] at hready
      refine .inr ⟨(s₁.store (.replica m' node factory state)).isViewModuleReady m', ?_⟩
      simp [hready, Bridge.readyChanged]
    · have hslot : (Object.replica m node factory state).slot ≠ .replica m' :=
        fun he => hm (Slot.replica.inj he).symm
      rw [isViewModuleReady_store hs₁ hslot] at hready
      exact .inl ⟨hready, lookup_store_ne (Ne.symm hslot)⟩

theorem rises_model (h : Coherent s) (m x : String) (acquired : Bool) :
    Rises s (s.model m x acquired).1 (s.model m x acquired).2 := by
  obtain ⟨s₁, r, -, hgrows, -, he⟩ | ⟨s₁, node, hs₁, hgrows, -, -, -, he⟩ :=
    h.model_cases m x acquired
  · rw [he]
    exact hgrows.rises h _
  · rw [he]
    exact (hgrows.rises h []).trans (rises_store hs₁ (by simp [Object.slot]) _)

theorem rises_stateChanged (h : Coherent s) (halive : s.alive = true) {node factory : ℕ}
    {old : Option State} (hd : s.objects d = some (.replica m node factory old)) (state : State) :
    Rises s (s.stateChanged d m node factory state).1 (s.stateChanged d m node factory state).2 := by
  intro m' hready
  rw [isViewModuleReady_stateChanged h hd] at hready
  split_ifs at hready with hcached
  · obtain ⟨-, rfl⟩ := hcached
    obtain rfl := of_decide_eq_true hready
    exact .inr ⟨(s.stateChanged d m' node factory .valid).1.isViewModuleReady m', by
      simp [Bridge.stateChanged, halive, Bridge.readyChanged]⟩
  · exact .inl ⟨hready, rfl⟩

theorem turn_cache (s : Bridge) : s.turn.1.cache = s.cache := by
  unfold Bridge.turn Bridge.destroyObject
  split
  · rfl
  · split <;> rfl

theorem rises_step {a : Action} (hsane : Sane s) (hs : Steps s a s' os) (halive : s'.alive = true) :
    s.alive = true ∧ Rises s s' os := by
  cases hs with
  | module m load acquired hbefore => exact ⟨hbefore, rises_module (hsane hbefore) m load acquired⟩
  | model m x acquired hbefore => exact ⟨hbefore, rises_model (hsane hbefore) m x acquired⟩
  | replayViewModuleState hbefore => exact ⟨hbefore, Rises.refl s _⟩
  | setViewModuleSocket m socket hbefore =>
      refine ⟨hbefore, ?_⟩
      obtain ⟨-, he⟩ | ⟨-, -, hreleases⟩ := (hsane hbefore).setViewModuleSocket_cases m socket
      · rw [he]
        exact Rises.refl s _
      · exact hreleases.rises _
  | setViewReplicaPlugin m path load hbefore =>
      refine ⟨hbefore, ?_⟩
      obtain ⟨-, he⟩ | ⟨-, s₁, hs₁, hreleases, -, hgrows⟩ :=
        (hsane hbefore).setViewReplicaPlugin_cases m path load
      · rw [he]
        exact Rises.refl s _
      · exact (hreleases.rises []).trans (hgrows.rises hs₁ [])
  | notifyViewModuleCrashed m hbefore => exact ⟨hbefore, (releases_drop m s).1.rises _⟩
  | stateChanged d state m node factory old hobject =>
      have hbefore : s.alive = true := halive
      exact ⟨hbefore, rises_stateChanged (hsane hbefore) hbefore hobject state⟩
  | turn =>
      have hbefore : s.alive = true := turn_alive s ▸ halive
      refine ⟨hbefore, fun m hready => .inl ⟨?_, by rw [turn_cache]⟩⟩
      rwa [isViewModuleReady_turn (hsane hbefore)] at hready
  | destroy =>
      rw [destroy_alive] at halive
      cases halive

/-! ### What `module` answers -/

/-- What a call of `module` returned. -/
def moduleResult (os : List Obs) : Option ℕ :=
  match os.getLast? with
  | some (.module _ result) => result
  | _ => none

/-- `module` answers with what is cached when it returns. -/
theorem module_answer (h : Coherent s) (m : String) (load : Load)
    (acquired : Option (Option State)) : moduleResult (s.module m load acquired).2 =
      (s.module m load acquired).1.cache.lookup (.replica m) := by
  unfold Bridge.module
  cases hreplica : s.cache.lookup (.replica m) with
  | some d => exact hreplica.symm
  | none =>
      obtain ⟨hload, hgrows, -⟩ := h.loadFactory m load
      dsimp only
      split
      · rename_i s₁ hs₁
        rw [hs₁] at hgrows
        exact ((hgrows.acquired (.replica m) m rfl).trans hreplica).symm
      · rename_i s₁ factory hs₁
        rw [hs₁] at hgrows hload
        obtain ⟨-, hgrows', -, -⟩ := hload.getOrCreateNode m
        split
        · rename_i s₂ hs₂
          rw [hs₂] at hgrows'
          exact (((hgrows.trans hgrows').acquired (.replica m) m rfl).trans hreplica).symm
        · rename_i s₂ node hs₂
          rw [hs₂] at hgrows'
          cases acquired with
          | none => exact (((hgrows.trans hgrows').acquired (.replica m) m rfl).trans hreplica).symm
          | some state =>
              have hlast : moduleResult (.acquired s₂.created node ::
                  (if state = some .valid then
                    [(s₂.store (.replica m node factory state)).readyChanged m true] else []) ++
                  [.module m (some s₂.created)]) = some s₂.created := by
                unfold moduleResult
                rw [List.getLast?_append]
                rfl
              exact hlast.trans (lookup_store_self (.replica m node factory state) s₂).symm

/-! ### The views -/

structure View where
  moduleName : String
  backend : Option ℕ := none
deriving DecidableEq, Repr

/-- What a view is at. -/
inductive Call where
  /-- its slot has yet to call `module` -/
  | hear (view : ℕ)
  /-- its call of `module` has emitted and will return `result` -/
  | ret (view : ℕ) (result : Option ℕ)
deriving DecidableEq, Repr

def Call.view : Call → ℕ
  | .hear i | .ret i _ => i

def Call.result : Call → Option (Option ℕ)
  | .hear _ => none
  | .ret _ result => some result

def Obs.isReadyChanged : Obs → Bool
  | .viewModuleReadyChanged .. => true
  | _ => false

structure Desk where
  bridge : Bridge := {}
  views : List View := []
  calls : List Call := []

namespace Desk

/-- The views whose slots call `module` on an emission, in the order in which they connected. -/
def listeners (moduleName : String) (s : Desk) : List ℕ :=
  (List.range s.views.length).filter fun i =>
    (s.views[i]?.map (·.moduleName)) = some moduleName

/-- The calls that the slots of the views owe on what was emitted. -/
def owed (os : List Obs) (s : Desk) : List Call := os.flatMap fun
  | .viewModuleReadyChanged moduleName true _ => (s.listeners moduleName).map .hear
  | _ => []

def emit (os : List Obs) (s : Desk) : Desk := { s with calls := s.owed os ++ s.calls }

/-- The view `i` takes what `module` returned for its backend. -/
def receive (i : ℕ) (result : Option ℕ) (s : Desk) : Desk :=
  { s with views := s.views.modify i fun view => { view with backend := result } }

/-- The view `i` calls `module`, which returns at once unless it emits. -/
def take (i : ℕ) (load : Load) (acquired : Option (Option State)) (s : Desk) : Desk × List Obs :=
  match s.views[i]? with
  | none => (s, [])
  | some view =>
      let answer := s.bridge.module view.moduleName load acquired
      let result := moduleResult answer.2
      let s := { s with bridge := answer.1 }
      if answer.2.any (·.isReadyChanged) then
        ({ s with calls := .ret i result :: s.calls }.emit answer.2, answer.2.dropLast)
      else (s.receive i result, answer.2)

/-- The slots on the emission of a call of `module` have returned, and it returns. -/
def ret (i : ℕ) (result : Option ℕ) (s : Desk) : Desk × List Obs :=
  match s.views[i]? with
  | none => (s, [])
  | some view => (s.receive i result, [.module view.moduleName result])

end Desk

inductive DeskAction where
  | bridge (a : Action)
  | mount (moduleName : String) (load : Load) (acquired : Option (Option State))
  | hear (load : Load) (acquired : Option (Option State))
  | ret
  | unmount (i : ℕ)

/-- No view goes while its slot runs. -/
def deskStep (s : Desk) : DeskAction → Option (Desk × List Obs)
  | .bridge a =>
      (step s.bridge a).map fun done => ({ s with bridge := done.1 }.emit done.2, done.2)
  | .mount moduleName load acquired =>
      if s.bridge.alive then
        some (({ s with views := s.views ++ [{ moduleName := moduleName }] } : Desk).take
          s.views.length load acquired)
      else none
  | .hear load acquired =>
      match s.calls with
      | .hear i :: calls =>
          if s.bridge.alive then some ({ s with calls }.take i load acquired) else none
      | _ => none
  | .ret =>
      match s.calls with
      | .ret i result :: calls => some ({ s with calls }.ret i result)
      | _ => none
  | .unmount i =>
      if s.calls = [] then some ({ s with views := s.views.eraseIdx i }, []) else none

/-- One desktop bridge with the views that follow it. -/
def desk : Machine Desk DeskAction Obs where
  init := {}
  step := deskStep

/-! ### The property and its condition -/

variable {w w' : Desk} {i : ℕ} {view : View}

/-- A view of a module that is ready has the module's replica. -/
def Has (s : Bridge) (view : View) : Prop := s.isViewModuleReady view.moduleName = true →
  view.backend = s.cache.lookup (.replica view.moduleName)

/-- A view is at a call. -/
def Busy (i : ℕ) (calls : List Call) : Prop := ∃ call ∈ calls, call.view = i

/-- Each view has its backend, or is at a call. -/
def Followed (w : Desk) : Prop := w.bridge.alive = true → ∀ i view, w.views[i]? = some view →
  Has w.bridge view ∨ Busy i w.calls

/-- What `module` returns to a view is what is cached then, unless the module is not ready or the
view is at another call. -/
def ReturnsCached (_ : List Obs) (w : Desk) : DeskAction → Prop
  | .ret => ∀ call ∈ w.calls.head?, ∀ result ∈ call.result, ∀ view ∈ w.views[call.view]?,
      w.bridge.alive = true →
        Has w.bridge { view with backend := result } ∨ Busy call.view w.calls.tail
  | .bridge _ | .mount .. | .hear .. | .unmount _ => True

/-- The module whose replica the host drops. -/
def Action.drops : Action → Option String
  | .setViewModuleSocket m _ | .setViewReplicaPlugin m _ _ | .notifyViewModuleCrashed m => some m
  | .module .. | .model .. | .replayViewModuleState | .stateChanged .. | .turn | .destroy => none

/-- The host drops no replica that `module` has yet to return to a view. -/
def Steady (_ : List Obs) (w : Desk) : DeskAction → Prop
  | .bridge a => ∀ call ∈ w.calls, call.result ≠ none → ∀ view ∈ w.views[call.view]?,
      a.drops ≠ some view.moduleName
  | .mount .. | .hear .. | .ret | .unmount _ => True

instance (s : Bridge) (view : View) : Decidable (Has s view) :=
  inferInstanceAs (Decidable (_ → _))

instance (i : ℕ) (calls : List Call) : Decidable (Busy i calls) :=
  inferInstanceAs (Decidable (∃ call ∈ calls, call.view = i))

instance (tr : List Obs) (w : Desk) : (a : DeskAction) → Decidable (ReturnsCached tr w a)
  | .ret => inferInstanceAs (Decidable (∀ call ∈ w.calls.head?, ∀ result ∈ call.result,
      ∀ view ∈ w.views[call.view]?, w.bridge.alive = true →
        Has w.bridge { view with backend := result } ∨ Busy call.view w.calls.tail))
  | .bridge _ | .mount .. | .hear .. | .unmount _ => inferInstanceAs (Decidable True)

instance (tr : List Obs) (w : Desk) : (a : DeskAction) → Decidable (Steady tr w a)
  | .bridge a => inferInstanceAs (Decidable (∀ call ∈ w.calls, call.result ≠ none →
      ∀ view ∈ w.views[call.view]?, a.drops ≠ some view.moduleName))
  | .mount .. | .hear .. | .ret | .unmount _ => inferInstanceAs (Decidable True)

/-! ### Steps -/

theorem Busy.mono {calls calls' : List Call} (h : Busy i calls) (hsub : calls ⊆ calls') :
    Busy i calls' := by
  obtain ⟨call, hm, hi⟩ := h
  exact ⟨call, hsub hm, hi⟩

theorem busy_cons {call : Call} {calls : List Call} :
    Busy i (call :: calls) ↔ call.view = i ∨ Busy i calls := by
  simp [Busy]

theorem busy_owed (h : w.views[i]? = some view) {now : Bool}
    (hm : .viewModuleReadyChanged view.moduleName true now ∈ os) : Busy i (w.owed os) := by
  refine ⟨.hear i, List.mem_flatMap.mpr ⟨_, hm, List.mem_map.mpr ⟨i, ?_, rfl⟩⟩, rfl⟩
  refine List.mem_filter.mpr ⟨?_, by simp [h]⟩
  exact List.mem_range.mpr (List.getElem?_eq_some_iff.mp h).1

theorem receive_views_ne {j : ℕ} (hne : j ≠ i) (result : Option ℕ) (w : Desk) :
    (w.receive i result).views[j]? = w.views[j]? := by
  rw [Desk.receive, List.getElem?_modify_ne _ _ (Ne.symm hne)]

theorem receive_views_self (hview : w.views[i]? = some view) (result : Option ℕ) :
    (w.receive i result).views[i]? = some { view with backend := result } := by
  rw [Desk.receive, List.getElem?_modify_eq, hview]
  rfl

/-- The step of the bridge under a view: what the view has, it still has, or it is told. -/
theorem Rises.has (h : Rises s s' os) (hhas : Has s view) :
    Has s' view ∨ ∃ now, .viewModuleReadyChanged view.moduleName true now ∈ os := by
  by_cases hready : s'.isViewModuleReady view.moduleName = true
  · obtain ⟨hbefore, he⟩ | htold := h _ hready
    · exact .inl fun _ => (hhas hbefore).trans he.symm
    · exact .inr htold
  · exact .inl fun h => absurd h hready

/-- Nothing but `calls` grows where the bridge emits. -/
theorem Followed.emit (hrises : s'.alive = true → w.bridge.alive = true ∧ Rises w.bridge s' os)
    (h : Followed w) : Followed ({ w with bridge := s' }.emit os) := by
  intro halive i view hview
  obtain ⟨hbefore, hrises⟩ := hrises halive
  obtain hhas | hbusy := h hbefore i view hview
  · obtain hhas' | ⟨now, hm⟩ := hrises.has hhas
    · exact .inl hhas'
    · have howed := busy_owed (w := { w with bridge := s' }) hview hm
      exact .inr (howed.mono (List.subset_append_left ..))
  · exact .inr (hbusy.mono (List.subset_append_right ..))

theorem Sane.module (h : Coherent s) (m : String) (load : Load)
    (acquired : Option (Option State)) (halive : s.alive = true) :
    Sane (s.module m load acquired).1 := by
  have hs : ViewModules.step s (.module m load acquired) = some (s.module m load acquired) :=
    if_pos halive
  exact Sane.step (fun _ => h) hs

/-- One view takes its backend, and the others have theirs or are at a call. -/
theorem followed_receive {result : Option ℕ} (hview : w.views[i]? = some view)
    (hself : w.bridge.alive = true →
      Has w.bridge { view with backend := result } ∨ Busy i w.calls)
    (hothers : w.bridge.alive = true → ∀ j other, w.views[j]? = some other → j ≠ i →
      Has w.bridge other ∨ Busy j w.calls) : Followed (w.receive i result) := by
  intro halive j other hj
  by_cases hji : j = i
  · subst hji
    rw [receive_views_self hview] at hj
    obtain rfl := Option.some.inj hj
    exact hself halive
  · rw [receive_views_ne hji] at hj
    exact hothers halive j other hj hji

/-- The view that calls has its backend then, or will; the others are told, or they have theirs. -/
theorem followed_take (hcoherent : Coherent w.bridge)
    (h : ∀ j view, w.views[j]? = some view → j ≠ i → Has w.bridge view ∨ Busy j w.calls)
    (load : Load) (acquired : Option (Option State)) : Followed (w.take i load acquired).1 := by
  unfold Desk.take
  cases hview : w.views[i]? with
  | none =>
      intro _ j view hj
      refine h j view hj ?_
      rintro rfl
      rw [hview] at hj
      cases hj
  | some view =>
      have hanswer := module_answer hcoherent view.moduleName load acquired
      have hrises := rises_module hcoherent view.moduleName load acquired
      dsimp only
      generalize w.bridge.module view.moduleName load acquired = r at *
      have hothers : ∀ j other, w.views[j]? = some other → j ≠ i →
          (Has r.1 other ∨ ∃ now, .viewModuleReadyChanged other.moduleName true now ∈ r.2) ∨
            Busy j w.calls := fun j other hj hji => (h j other hj hji).imp_left hrises.has
      split_ifs with htold
      · -- the view will have what it is told
        intro _ j other hj
        by_cases hji : j = i
        · exact .inr ⟨_, List.mem_append_right _ List.mem_cons_self, hji.symm⟩
        · obtain (hhas | ⟨now, hm⟩) | hbusy := hothers j other hj hji
          · exact .inl hhas
          · exact .inr ((busy_owed hj hm).mono (List.subset_append_left ..))
          · have hbusy' : Busy j (.ret i (moduleResult r.2) :: w.calls) := busy_cons.mpr (.inr hbusy)
            exact .inr (hbusy'.mono (List.subset_append_right ..))
      · refine followed_receive (w := { w with bridge := r.1 }) hview
          (fun _ => .inl fun _ => hanswer) fun _ j other hj hji => ?_
        obtain (hhas | ⟨now, hm⟩) | hbusy := hothers j other hj hji
        · exact .inl hhas
        · exact absurd (List.any_eq_true.mpr ⟨_, hm, rfl⟩) htold
        · exact .inr hbusy

/-- A call returns to a view. -/
theorem followed_ret_iff {result : Option ℕ} {calls : List Call} (h : Followed w)
    (hcalls : w.calls = .ret i result :: calls) :
    Followed ({ w with calls }.ret i result).1 ↔ ReturnsCached tr w .ret := by
  have hcondition : ReturnsCached tr w .ret ↔ ∀ view ∈ w.views[i]?, w.bridge.alive = true →
      Has w.bridge { view with backend := result } ∨ Busy i calls := by
    simp [ReturnsCached, hcalls, Call.view, Call.result]
  have hothers : w.bridge.alive = true → ∀ j view, w.views[j]? = some view → j ≠ i →
      Has w.bridge view ∨ Busy j calls := by
    intro halive j view hj hji
    refine (h halive j view hj).imp_right fun hbusy => ?_
    rw [hcalls, busy_cons] at hbusy
    exact hbusy.resolve_left (Ne.symm hji)
  rw [hcondition, Desk.ret]
  cases hview : w.views[i]? with
  | none =>
      refine iff_of_true (fun halive j view hj => hothers halive j view hj ?_) (by simp)
      rintro rfl
      rw [hview] at hj
      cases hj
  | some view =>
      constructor
      · intro hfollowed _ hm halive
        obtain rfl := Option.some.inj hm
        exact hfollowed halive i _ (receive_views_self (w := { w with calls }) hview result)
      · intro hcurrent
        exact followed_receive (w := { w with calls }) hview (hcurrent view rfl) hothers

/-- A step keeps every view at its backend exactly if what a call returns is current. -/
theorem followed_step_iff {a : DeskAction} (hsane : Sane w.bridge) (h : Followed w)
    (hs : deskStep w a = some (w', os)) : Followed w' ↔ ReturnsCached tr w a := by
  cases a with
  | bridge a =>
      obtain ⟨⟨s', os'⟩, hs', he⟩ := Option.map_eq_some_iff.mp hs
      obtain ⟨rfl, rfl⟩ := Prod.mk.inj he
      exact iff_of_true (h.emit (rises_step hsane (step_cases hs'))) trivial
  | mount moduleName load acquired =>
      obtain ⟨halive, rfl, -⟩ := Machine.taken_if hs
      refine iff_of_true (followed_take (w := { w with views := w.views ++ [⟨moduleName, none⟩] })
        (hsane halive) (fun j view hj hne => ?_) load acquired) trivial
      refine h halive j view ?_
      rw [← hj, List.getElem?_append_left]
      have hlt := (List.getElem?_eq_some_iff.mp hj).1
      rw [List.length_append, List.length_singleton] at hlt
      omega
  | hear load acquired =>
      simp only [deskStep] at hs
      split at hs
      · rename_i i calls hcalls
        obtain ⟨halive, rfl, -⟩ := Machine.taken_if hs
        refine iff_of_true (followed_take (w := { w with calls }) (hsane halive)
          (fun j view hj hne => ?_) load acquired) trivial
        refine (h halive j view hj).imp_right fun hbusy => ?_
        rw [hcalls, busy_cons] at hbusy
        exact hbusy.resolve_left (Ne.symm hne)
      · cases hs
  | ret =>
      simp only [deskStep] at hs
      split at hs
      · rename_i i result calls hcalls
        obtain ⟨rfl, -⟩ := Prod.mk.inj (Option.some.inj hs)
        exact followed_ret_iff h hcalls
      · cases hs
  | unmount i =>
      obtain ⟨hcalls, rfl, -⟩ := Machine.taken_if hs
      refine iff_of_true (fun halive j view hj => ?_) trivial
      obtain ⟨k, hk⟩ := List.mem_iff_getElem?.mp
        (List.mem_of_mem_eraseIdx (List.mem_of_getElem? hj))
      obtain hhas | ⟨call, hm, -⟩ := h halive k view hk
      · exact .inl hhas
      · rw [hcalls] at hm
        cases hm

theorem sane_take (h : Sane w.bridge) (halive : w.bridge.alive = true) (load : Load)
    (acquired : Option (Option State)) : Sane (w.take i load acquired).1.bridge := by
  unfold Desk.take
  cases w.views[i]? with
  | none => exact h
  | some view =>
      dsimp only
      split_ifs <;> exact Sane.module (h halive) view.moduleName load acquired halive

theorem sane_step {a : DeskAction} (h : Sane w.bridge) (hs : deskStep w a = some (w', os)) :
    Sane w'.bridge := by
  cases a with
  | bridge a =>
      obtain ⟨⟨s', os'⟩, hs', he⟩ := Option.map_eq_some_iff.mp hs
      obtain ⟨rfl, rfl⟩ := Prod.mk.inj he
      exact h.step hs'
  | mount moduleName load acquired =>
      obtain ⟨halive, rfl, -⟩ := Machine.taken_if hs
      exact sane_take (w := { w with views := w.views ++ [⟨moduleName, none⟩] }) h halive load acquired
  | hear load acquired =>
      simp only [deskStep] at hs
      split at hs
      · rename_i i calls hcalls
        obtain ⟨halive, rfl, -⟩ := Machine.taken_if hs
        exact sane_take (w := { w with calls }) h halive load acquired
      · cases hs
  | ret =>
      simp only [deskStep, Desk.ret] at hs
      split at hs
      · split at hs <;> obtain ⟨rfl, -⟩ := Prod.mk.inj (Option.some.inj hs) <;> exact h
      · cases hs
  | unmount i =>
      obtain ⟨-, rfl, -⟩ := Machine.taken_if hs
      exact h

theorem run_sane_desk {G : List Obs → Desk → DeskAction → Prop} (h : desk.Run G tr w) :
    Sane w.bridge :=
  h.invariant (I := fun _ w => Sane w.bridge) (fun _ => Coherent.initial)
    fun hi _ hs => sane_step hi hs

/-! ### What a call returns -/

/-- A replica stays cached until the host drops it. -/
theorem replica_kept {a : Action} (hsane : Sane s) (hs : Steps s a s' os) (halive : s'.alive = true)
    (hd : s.cache.lookup (.replica m) = some d) (hdrops : a.drops ≠ some m) :
    s'.cache.lookup (.replica m) = some d := by
  cases hs with
  | module m' load acquired hbefore =>
      obtain ⟨s₁, r, -, hgrows, -, he⟩ | ⟨s₁, node, factory, state, -, hgrows, -, hnone, -, -, he⟩ :=
        (hsane hbefore).module_cases m' load acquired
      · rw [he, hgrows.acquired (.replica m) m rfl, hd]
      · have hkept := (hgrows.acquired (.replica m) m rfl).trans hd
        have hne : Slot.replica m ≠ (Object.replica m' node factory state).slot := by
          intro hslot
          obtain rfl : m = m' := Slot.replica.inj hslot
          rw [hnone] at hkept
          cases hkept
        rw [he, lookup_store_ne hne, hkept]
  | model m' x acquired hbefore =>
      obtain ⟨s₁, r, -, hgrows, -, he⟩ | ⟨s₁, node, -, hgrows, -, -, -, he⟩ :=
        (hsane hbefore).model_cases m' x acquired
      · rw [he, hgrows.acquired (.replica m) m rfl, hd]
      · rw [he, lookup_store_ne (by simp [Object.slot]), hgrows.acquired (.replica m) m rfl, hd]
  | replayViewModuleState => exact hd
  | setViewModuleSocket m' socket hbefore =>
      have hne : m ≠ m' := fun he => hdrops (congrArg some he.symm)
      obtain ⟨-, he⟩ | ⟨-, -, hreleases⟩ := (hsane hbefore).setViewModuleSocket_cases m' socket
      · rw [he, hd]
      · rw [hreleases.kept _ (not_belongsTo hne), hd]
  | setViewReplicaPlugin m' path load hbefore =>
      have hne : m ≠ m' := fun he => hdrops (congrArg some he.symm)
      obtain ⟨-, he⟩ | ⟨-, s₁, -, hreleases, -, hgrows⟩ :=
        (hsane hbefore).setViewReplicaPlugin_cases m' path load
      · rw [he, hd]
      · rw [hgrows.acquired (.replica m) m rfl, hreleases.kept _ (by simp [hne]), hd]
  | notifyViewModuleCrashed m' =>
      have hne : m ≠ m' := fun he => hdrops (congrArg some he.symm)
      rw [← hd]
      exact (releases_drop m' s).1.kept _ (not_belongsTo hne)
  | stateChanged => exact hd
  | turn => rwa [turn_cache]
  | destroy =>
      rw [destroy_alive] at halive
      cases halive

/-- A `module` that emits has acquired what it returns. -/
theorem module_told (h : Coherent s) (m : String) (load : Load) (acquired : Option (Option State))
    (htold : (s.module m load acquired).2.any (·.isReadyChanged) = true) : ∃ d,
      moduleResult (s.module m load acquired).2 = some d ∧
      (s.module m load acquired).1.cache.lookup (.replica m) = some d := by
  rw [module_answer h m load acquired]
  obtain ⟨s₁, r, -, -, -, he⟩ | ⟨s₁, node, factory, state, -, -, -, -, -, -, he⟩ :=
    h.module_cases m load acquired
  · rw [he] at htold
    cases htold
  · rw [he]
    exact ⟨_, lookup_store_self .., lookup_store_self ..⟩

/-- The module of a view. -/
def Desk.moduleOf (i : ℕ) (w : Desk) : Option String := w.views[i]?.map (·.moduleName)

/-- The calls are those of views that are there, and what they have yet to return is cached. -/
def Returning (w : Desk) : Prop := w.bridge.alive = true → ∀ call ∈ w.calls,
  ∃ m, w.moduleOf call.view = some m ∧ ∀ result ∈ call.result, ∃ d, result = some d ∧
    w.bridge.cache.lookup (.replica m) = some d

theorem moduleOf_receive (j : ℕ) (result : Option ℕ) (w : Desk) :
    (w.receive i result).moduleOf j = w.moduleOf j := by
  rw [Desk.moduleOf, Desk.receive, List.getElem?_modify, Option.map_eq_map, Option.map_map]
  refine congrArg (fun f => w.views[j]?.map f) (funext fun view => ?_)
  dsimp only [Function.comp_apply]
  split_ifs <;> rfl

/-- The views that owe a call have nothing to return. -/
theorem mem_owed {call : Call} (h : call ∈ w.owed os) :
    (∃ m, w.moduleOf call.view = some m) ∧ call.result = none := by
  obtain ⟨o, -, hcall⟩ := List.mem_flatMap.mp h
  split at hcall
  · rename_i m now
    obtain ⟨i, hi, rfl⟩ := List.mem_map.mp hcall
    exact ⟨⟨m, of_decide_eq_true (List.mem_filter.mp hi).2⟩, rfl⟩
  · cases hcall

/-- The calls of a step that emits. -/
theorem Returning.emit (h : Returning w) : Returning (w.emit os) := by
  intro halive call hcall
  obtain howed | hcall := List.mem_append.mp hcall
  · obtain ⟨⟨m, hm⟩, hnone⟩ := mem_owed howed
    exact ⟨m, hm, by simp [hnone]⟩
  · exact h halive call hcall

/-- The bridge goes on, and drops nothing that is to be returned. -/
theorem Returning.bridge {a : Action} (h : Returning w) (hsane : Sane w.bridge)
    (hs : Steps w.bridge a s' os) (hkept : ∀ call ∈ w.calls, call.result ≠ none →
      ∀ m, w.moduleOf call.view = some m → a.drops ≠ some m) :
    Returning { w with bridge := s' } := by
  intro halive call hcall
  obtain ⟨hbefore, -⟩ := rises_step hsane hs halive
  obtain ⟨m, hm, hresult⟩ := h hbefore call hcall
  refine ⟨m, hm, fun result hr => ?_⟩
  obtain ⟨d, hd, hcached⟩ := hresult result hr
  have hsome : call.result ≠ none := by
    intro hnone
    rw [hnone] at hr
    cases hr
  exact ⟨d, hd, replica_kept hsane hs halive hcached (hkept call hcall hsome m hm)⟩

theorem Returning.take (h : Returning w) (hsane : Sane w.bridge) (halive : w.bridge.alive = true)
    (load : Load) (acquired : Option (Option State)) : Returning (w.take i load acquired).1 := by
  unfold Desk.take
  cases hview : w.views[i]? with
  | none => exact h
  | some view =>
      have hstep : Returning { w with bridge := (w.bridge.module view.moduleName load acquired).1 } :=
        h.bridge hsane (.module view.moduleName load acquired halive) (by simp [Action.drops])
      have htold := module_told (hsane halive) view.moduleName load acquired
      dsimp only
      generalize w.bridge.module view.moduleName load acquired = r at *
      split_ifs with hany
      · refine Returning.emit (w := { w with
          bridge := r.1
          calls := .ret i (moduleResult r.2) :: w.calls }) fun halive => ?_
        refine List.forall_mem_cons.mpr ⟨⟨view.moduleName, ?_, ?_⟩, hstep halive⟩
        · simp [Desk.moduleOf, Call.view, hview]
        · intro result hr
          obtain rfl := Option.some.inj hr
          exact htold hany
      · intro halive call hcall
        obtain ⟨m, hm, hresult⟩ := hstep halive call hcall
        exact ⟨m, (moduleOf_receive ..).trans hm, hresult⟩

theorem Returning.step {a : DeskAction} (h : Returning w) (hsane : Sane w.bridge)
    (hsteady : Steady tr w a) (hs : deskStep w a = some (w', os)) : Returning w' := by
  cases a with
  | bridge a =>
      obtain ⟨⟨s', os'⟩, hs', he⟩ := Option.map_eq_some_iff.mp hs
      obtain ⟨rfl, rfl⟩ := Prod.mk.inj he
      refine (h.bridge hsane (step_cases hs') fun call hcall hsome m hm => ?_).emit
      obtain ⟨view, hview, rfl⟩ := Option.map_eq_some_iff.mp hm
      exact hsteady call hcall hsome view hview
  | mount moduleName load acquired =>
      obtain ⟨halive, rfl, -⟩ := Machine.taken_if hs
      refine Returning.take (w := { w with views := w.views ++ [⟨moduleName, none⟩] })
        (fun halive call hcall => ?_) hsane halive load acquired
      obtain ⟨m, hm, hresult⟩ := h halive call hcall
      refine ⟨m, ?_, hresult⟩
      obtain ⟨view, hview, rfl⟩ := Option.map_eq_some_iff.mp hm
      have hlt := (List.getElem?_eq_some_iff.mp hview).1
      simp [Desk.moduleOf, List.getElem?_append_left hlt, hview]
  | hear load acquired =>
      simp only [deskStep] at hs
      split at hs
      · rename_i i calls hcalls
        obtain ⟨halive, rfl, -⟩ := Machine.taken_if hs
        refine Returning.take (w := { w with calls }) (fun halive call hcall => ?_) hsane halive load
          acquired
        exact h halive call (hcalls ▸ List.mem_cons_of_mem _ hcall)
      · cases hs
  | ret =>
      simp only [deskStep] at hs
      split at hs
      · rename_i i result calls hcalls
        have hrest : Returning { w with calls } := fun halive call hcall =>
          h halive call (hcalls ▸ List.mem_cons_of_mem _ hcall)
        obtain ⟨rfl, -⟩ := Prod.mk.inj (Option.some.inj hs)
        split
        · exact hrest
        · intro halive call hcall
          obtain ⟨m, hm, hresult⟩ := hrest halive call hcall
          exact ⟨m, (moduleOf_receive ..).trans hm, hresult⟩
      · cases hs
  | unmount i =>
      obtain ⟨hcalls, rfl, -⟩ := Machine.taken_if hs
      intro _ call hcall
      have hcall : call ∈ w.calls := hcall
      rw [hcalls] at hcall
      cases hcall

/-- What is returned then is current. -/
theorem Returning.returnsCached (h : Returning w) (a : DeskAction) : ReturnsCached tr w a := by
  cases a with
  | ret =>
      intro call hcall result hresult view hview halive
      obtain ⟨m, hm, hreturns⟩ := h halive call (List.mem_of_mem_head? hcall)
      obtain ⟨d, rfl, hcached⟩ := hreturns result hresult
      have hname : view.moduleName = m := by
        rw [Desk.moduleOf, show w.views[call.view]? = some view from hview] at hm
        exact Option.some.inj hm
      exact .inl fun _ => by rw [hname, hcached]
  | _ => trivial

theorem run_returning (h : desk.Run Steady tr w) : Returning w := by
  induction h with
  | start => exact fun _ call hcall => by cases hcall
  | step hrun hsteady hs ih => exact ih.step (run_sane_desk hrun) hsteady hs

/-! ### Runs -/

/-- **Desktop views come by their backend**, whatever replicas are dropped, acquired and destroyed:
a view that follows the idiom holds the current replica of its module whenever that module is ready
and no slot of a view is running, exactly along the runs in which `module` returns to a view what is
cached when it returns.  It does where the host drops no replica while `module` has yet to return
it. -/
theorem desktop_views_get_their_backend (tr : List Obs) (w : Desk) :
    (desk.Run ReturnsCached tr w → Followed w ∧ (w.bridge.alive = true → w.calls = [] →
      ∀ view ∈ w.views, w.bridge.isViewModuleReady view.moduleName = true →
        view.backend = w.bridge.cache.lookup (.replica view.moduleName))) ∧
    (desk.Run (desk.keeps fun _ w => Followed w) tr w → desk.Run ReturnsCached tr w) ∧
    (desk.Run Steady tr w → desk.Run ReturnsCached tr w) := by
  obtain ⟨hfollowed, hcurrent⟩ := Machine.Run.exact_always (M := desk) (C := ReturnsCached)
    (P := fun _ w => Followed w) (fun _ i view hview => by cases hview)
    fun hrun hfollowed hs => followed_step_iff (run_sane_desk hrun) hfollowed hs
  refine ⟨fun h => ⟨hfollowed tr w h, fun halive hcalls view hview => ?_⟩, hcurrent tr w, fun h => ?_⟩
  · obtain ⟨i, hi⟩ := List.mem_iff_getElem?.mp hview
    obtain hhas | ⟨call, hcall, -⟩ := hfollowed tr w h halive i view hi
    · exact hhas
    · rw [hcalls] at hcall
      cases hcall
  · induction h with
    | start => exact .start
    | step hrun hsteady hs ih => exact ih.step ((run_returning hrun).returnsCached _) hs

/-- The module moves to another socket, a second view acquires it there, and the first follows. -/
theorem view_follows_a_changed_socket : ∃ tr w, desk.Run Steady tr w ∧
    w.bridge.isViewModuleReady "chat" = true ∧
    w.views = [⟨"chat", some 6⟩, ⟨"chat", some 6⟩] ∧ ∀ view ∈ w.views,
      w.bridge.isViewModuleReady view.moduleName = true →
        view.backend = w.bridge.cache.lookup (.replica view.moduleName) := by
  obtain ⟨tr, w, h, halive, hcalls, hready, hviews⟩ := Machine.exec_any (M := desk) (G := Steady)
    [.bridge (.setViewReplicaPlugin "chat" "/chat.so" .factory),
      .bridge (.setViewModuleSocket "chat" "a"), .mount "chat" .factory (some (some .default)),
      .bridge (.stateChanged 3 .valid), .hear .factory none,
      .bridge (.setViewModuleSocket "chat" "b"), .mount "chat" .factory (some (some .valid)),
      .hear .factory none, .hear .factory none, .ret]
    (p := fun _ w => w.bridge.alive = true ∧ w.calls = [] ∧
      w.bridge.isViewModuleReady "chat" = true ∧
      w.views = [⟨"chat", some 6⟩, ⟨"chat", some 6⟩]) (by decide +kernel)
  obtain ⟨hfollowed, -, hcurrent⟩ := desktop_views_get_their_backend tr w
  exact ⟨tr, w, h, hready, hviews, (hfollowed (hcurrent h)).2 halive hcalls⟩

end LogosViewRuntime.ViewModules
