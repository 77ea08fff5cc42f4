import Mathlib.Data.List.Basic

/-! # One-shot calls

A call that is issued, possibly sent out, answered by somebody and reported to its caller at
most once.  `Phase` is where such a call stands, `Step` what may happen to it: it is issued once,
sent at most once and only while it waits, settled by the first answer that arrives while it
waits, fired with the value it was settled with, and cancelled at any time.  Answers that come
too early or too late are ignored.

`Path p t q` says that the events `t` lead from phase `p` to phase `q`; whatever is proved here
about paths from `fresh` holds of every program whose calls keep to this automaton:

* `Path.fires_length_le`, `Path.sends_le`: one fire and one send at the most;
* `Path.no_send_after_fire`: nothing is sent once the caller was told an outcome;
* `Path.no_fire_after_cancel`: a cancelled call stays silent;
* `Path.first_answer`: the value fired is the first one that arrived after the issue. -/

namespace Reactive.OneShot

variable {ν : Type*}

/-- What can happen to one call. -/
inductive Event (ν : Type*) where
  | issue
  | send
  | settle (v : ν)
  | fire (v : ν)
  | cancel

/-- Where one call stands. -/
inductive Phase (ν : Type*) where
  | fresh
  | waiting (sent : Bool)
  | settled (v : ν)
  | finished

/-- The moves of a one-shot call. -/
inductive Step : Phase ν → Event ν → Phase ν → Prop
  | issue : Step .fresh .issue (.waiting false)
  | send : Step (.waiting false) .send (.waiting true)
  | settle (b : Bool) (v : ν) : Step (.waiting b) (.settle v) (.settled v)
  | early (v : ν) : Step .fresh (.settle v) .fresh
  | late (v w : ν) : Step (.settled v) (.settle w) (.settled v)
  | stale (w : ν) : Step .finished (.settle w) .finished
  | fire (v : ν) : Step (.settled v) (.fire v) .finished
  | cancelFresh : Step .fresh .cancel .fresh
  | cancelWaiting (b : Bool) : Step (.waiting b) .cancel .finished
  | cancelSettled (v : ν) : Step (.settled v) .cancel .finished
  | cancelFinished : Step .finished .cancel .finished

/-- The events `t` lead from `p` to `q`. -/
inductive Path : Phase ν → List (Event ν) → Phase ν → Prop
  | nil (p : Phase ν) : Path p [] p
  | cons {p q r : Phase ν} {e : Event ν} {t : List (Event ν)} :
      Step p e q → Path q t r → Path p (e :: t) r

theorem Path.append {p q r : Phase ν} {t u : List (Event ν)} (h : Path p t q) (h' : Path q u r) :
    Path p (t ++ u) r := by
  induction h with
  | nil => exact h'
  | cons hs _ ih => exact .cons hs (ih h')

theorem Path.snoc {p q r : Phase ν} {e : Event ν} {t : List (Event ν)} (h : Path p t q)
    (hs : Step q e r) : Path p (t ++ [e]) r := h.append (.cons hs (.nil r))

theorem Path.split {t u : List (Event ν)} {p r : Phase ν} (h : Path p (t ++ u) r) :
    ∃ q, Path p t q ∧ Path q u r := by
  induction t generalizing p with
  | nil => exact ⟨p, .nil p, h⟩
  | cons e t ih =>
      cases h with
      | cons hs h =>
          obtain ⟨q, h₁, h₂⟩ := ih h
          exact ⟨q, .cons hs h₁, h₂⟩

/-- No move leads back to `fresh`. -/
theorem Path.ne_fresh {p q : Phase ν} {t : List (Event ν)} (h : Path p t q) (hp : p ≠ .fresh) :
    q ≠ .fresh := by
  induction h with
  | nil => exact hp
  | cons hs _ ih =>
      refine ih ?_
      cases hs <;> first | exact hp | nofun

/-! ### Projections of a path -/

/-- The values a path fires, in order. -/
def fires : List (Event ν) → List ν
  | [] => []
  | .fire v :: t => v :: fires t
  | _ :: t => fires t

/-- How often a path sends. -/
def sends : List (Event ν) → ℕ
  | [] => 0
  | .send :: t => sends t + 1
  | _ :: t => sends t

/-- The first value a path settles with. -/
def firstSettle : List (Event ν) → Option ν
  | [] => none
  | .settle v :: _ => some v
  | _ :: t => firstSettle t

theorem fires_append : ∀ t u : List (Event ν), fires (t ++ u) = fires t ++ fires u
  | [], _ => rfl
  | e :: t, u => by cases e <;> simp [fires, fires_append t u]

theorem sends_append : ∀ t u : List (Event ν), sends (t ++ u) = sends t + sends u
  | [], _ => by simp [sends]
  | e :: t, u => by cases e <;> simp [sends, sends_append t u]; omega

theorem mem_fires {v : ν} : ∀ {t : List (Event ν)}, v ∈ fires t ↔ .fire v ∈ t
  | [] => by simp [fires]
  | e :: t => by cases e <;> simp [fires, mem_fires (t := t)]

/-! ### Reading a path off observations -/

section observations

variable {ω : Type*}

theorem fires_flatMap {events : ω → List (Event ν)} {fired : ω → Option ν}
    (h : ∀ o, fires (events o) = (fired o).toList) (tr : List ω) :
    fires (tr.flatMap events) = tr.filterMap fired := by
  induction tr with
  | nil => rfl
  | cons o tr ih =>
      rw [List.flatMap_cons, fires_append, h, ih, List.filterMap_cons]
      cases fired o <;> rfl

theorem sends_flatMap {events : ω → List (Event ν)} {sent : ω → Bool}
    (h : ∀ o, sends (events o) = if sent o then 1 else 0) (tr : List ω) :
    sends (tr.flatMap events) = tr.countP sent := by
  induction tr with
  | nil => rfl
  | cons o tr ih =>
      rw [List.flatMap_cons, sends_append, h, ih, List.countP_cons]
      omega

theorem fires_filterMap {event : ω → Option (Event ν)} {fired : ω → Option ν}
    (h : ∀ o, fires (event o).toList = (fired o).toList) (tr : List ω) :
    fires (tr.filterMap event) = tr.filterMap fired := by
  rw [List.filterMap_eq_flatMap_toList event]
  exact fires_flatMap h tr

theorem sends_filterMap {event : ω → Option (Event ν)} {sent : ω → Bool}
    (h : ∀ o, sends (event o).toList = if sent o then 1 else 0) (tr : List ω) :
    sends (tr.filterMap event) = tr.countP sent := by
  rw [List.filterMap_eq_flatMap_toList event]
  exact sends_flatMap h tr

end observations

/-! ### What a path can fire and send -/

theorem Path.finished {t : List (Event ν)} {q : Phase ν} (h : Path .finished t q) :
    q = .finished ∧ fires t = [] ∧ sends t = 0 := by
  induction t with
  | nil => cases h; exact ⟨rfl, rfl, rfl⟩
  | cons e t ih =>
      obtain _ | ⟨hs, h⟩ := h
      cases hs with
      | stale w => exact ih h
      | cancelFinished => exact ih h

/-- A settled call fires its value or is cancelled, and is not sent any more. -/
theorem Path.settled {v : ν} {t : List (Event ν)} {q : Phase ν} (h : Path (.settled v) t q) :
    sends t = 0 ∧ (fires t = [] ∧ (q = .settled v ∨ .cancel ∈ t) ∨ q = .finished ∧ fires t = [v]) := by
  induction t with
  | nil => cases h; exact ⟨rfl, .inl ⟨rfl, .inl rfl⟩⟩
  | cons e t ih =>
      obtain _ | ⟨hs, h⟩ := h
      cases hs with
      | late _ w =>
          obtain ⟨hn, hf⟩ := ih h
          exact ⟨hn, by simpa [fires] using hf⟩
      | fire =>
          obtain ⟨hq, hf, hn⟩ := h.finished
          exact ⟨hn, .inr ⟨hq, by rw [fires, hf]⟩⟩
      | cancelSettled =>
          obtain ⟨-, hf, hn⟩ := h.finished
          exact ⟨hn, .inl ⟨hf, .inr List.mem_cons_self⟩⟩

theorem Path.settled_fires {v : ν} {t : List (Event ν)} {q : Phase ν} (h : Path (.settled v) t q) :
    (fires t).length ≤ 1 := by
  obtain ⟨-, ⟨hf, -⟩ | ⟨-, hf⟩⟩ := h.settled <;> simp [hf]

theorem Path.waiting {b : Bool} {t : List (Event ν)} {q : Phase ν} (h : Path (.waiting b) t q) :
    (fires t).length ≤ 1 ∧ sends t ≤ (!b).toNat := by
  induction t generalizing b with
  | nil => exact ⟨Nat.zero_le _, Nat.zero_le _⟩
  | cons e t ih =>
      obtain _ | ⟨hs, h⟩ := h
      cases hs with
      | send =>
          obtain ⟨hf, hn⟩ := ih h
          exact ⟨hf, by simpa [sends] using hn⟩
      | settle _ v => exact ⟨h.settled_fires, by simp [sends, h.settled.1]⟩
      | cancelWaiting =>
          obtain ⟨-, hf, hn⟩ := h.finished
          simp [fires, sends, hf, hn]

theorem Path.fresh {t : List (Event ν)} {q : Phase ν} (h : Path .fresh t q) :
    (fires t).length ≤ 1 ∧ sends t ≤ 1 := by
  induction t with
  | nil => exact ⟨Nat.zero_le _, Nat.zero_le _⟩
  | cons e t ih =>
      obtain _ | ⟨hs, h⟩ := h
      cases hs with
      | issue => exact h.waiting
      | early w => exact ih h
      | cancelFresh => exact ih h

theorem Path.fires_length_le {t : List (Event ν)} {q : Phase ν} (h : Path .fresh t q) :
    (fires t).length ≤ 1 := h.fresh.1

theorem Path.sends_le {t : List (Event ν)} {q : Phase ν} (h : Path .fresh t q) : sends t ≤ 1 :=
  h.fresh.2

/-- Nothing is sent once the caller was told an outcome. -/
theorem Path.no_send_after_fire {p q : Phase ν} {t u : List (Event ν)} {v : ν}
    (h : Path p (t ++ .fire v :: u) q) : sends u = 0 := by
  obtain ⟨r, -, _ | ⟨hs, h⟩⟩ := h.split
  cases hs
  exact h.finished.2.2

/-- An issued call that is cancelled stays silent. -/
theorem Path.no_fire_after_cancel {q : Phase ν} {t u : List (Event ν)}
    (h : Path .fresh (t ++ .cancel :: u) q) (hi : .issue ∈ t) : fires u = [] := by
  obtain ⟨r, h₁, _ | ⟨hs, h₂⟩⟩ := h.split
  have hr : r ≠ .fresh := by
    obtain ⟨t₁, t₂, rfl⟩ := List.append_of_mem hi
    obtain ⟨p, -, _ | ⟨hs', h₁⟩⟩ := h₁.split
    cases hs'
    exact h₁.ne_fresh nofun
  cases hs with
  | cancelFresh => exact absurd rfl hr
  | cancelWaiting => exact h₂.finished.2.1
  | cancelSettled => exact h₂.finished.2.1
  | cancelFinished => exact h₂.finished.2.1

/-- A call that is over and was not cancelled has told its outcome. -/
theorem Path.fired {p : Phase ν} {t : List (Event ν)} (h : Path p t .finished) (hp : p ≠ .finished)
    (hc : .cancel ∉ t) : (fires t).length = 1 := by
  induction t generalizing p with
  | nil => cases h; exact absurd rfl hp
  | cons e t ih =>
      have hc' : .cancel ∉ t := fun hm => hc (List.mem_cons_of_mem _ hm)
      obtain _ | ⟨hs, h⟩ := h
      cases hs with
      | fire v => simp [fires, h.finished.2.1]
      | issue | send | settle | early | late => exact ih h nofun hc'
      | stale => exact absurd rfl hp
      | cancelFresh | cancelWaiting | cancelSettled | cancelFinished =>
          exact absurd List.mem_cons_self hc

theorem Path.waiting_first {v : ν} {b : Bool} {t : List (Event ν)} {q : Phase ν}
    (h : Path (.waiting b) t q) (hc : .cancel ∉ t) (hv : firstSettle t = some v) :
    q = .settled v ∧ fires t = [] ∨ q = .finished ∧ fires t = [v] := by
  induction t generalizing b with
  | nil => simp [firstSettle] at hv
  | cons e t ih =>
      have hc' : .cancel ∉ t := fun hm => hc (List.mem_cons_of_mem _ hm)
      obtain _ | ⟨hs, h⟩ := h
      cases hs with
      | send => exact ih h hc' hv
      | settle _ w =>
          simp only [firstSettle, Option.some.injEq] at hv
          subst hv
          obtain ⟨-, ⟨hf, hq | hm⟩ | hf⟩ := h.settled
          · exact .inl ⟨hq, hf⟩
          · exact absurd hm hc'
          · exact .inr hf
      | cancelWaiting => exact absurd List.mem_cons_self hc

/-- Nothing was fired or sent before the issue. -/
theorem Path.of_fresh {t : List (Event ν)} (h : Path .fresh t .fresh) :
    fires t = [] ∧ sends t = 0 := by
  induction t with
  | nil => exact ⟨rfl, rfl⟩
  | cons e t ih =>
      obtain _ | ⟨hs, h⟩ := h
      cases hs with
      | issue => exact absurd rfl (h.ne_fresh nofun)
      | early v => exact ih h
      | cancelFresh => exact ih h

/-- The value a call fires is the first one that arrives after its issue, and unless it is
cancelled it has either fired that value or is about to. -/
theorem Path.first_answer {q : Phase ν} {t u : List (Event ν)} {v : ν}
    (h : Path .fresh (t ++ .issue :: u) q) (hc : .cancel ∉ u) (hv : firstSettle u = some v) :
    q = .settled v ∧ fires (t ++ .issue :: u) = [] ∨
      q = .finished ∧ fires (t ++ .issue :: u) = [v] := by
  obtain ⟨r, h₁, _ | ⟨hs, h₂⟩⟩ := h.split
  cases hs
  have heq : fires (t ++ .issue :: u) = fires u := by
    rw [fires_append, h₁.of_fresh.1]; rfl
  rw [heq]
  exact h₂.waiting_first hc hv

end Reactive.OneShot
