import Mathlib.Data.List.Basic

/-! # Machines with observable steps

The transition systems everything else is stated over.  A `Machine` has a state, labels that
drive it and observations a step yields; a label the state cannot take is refused (`none`).
`Run G tr s` says that `s` is reached from the initial state with the observations `tr`, every
step on the way meeting the guard `G`; a guard sees the observations so far, the state and the
label, so assumptions about an environment ("this id was never used before") and conditions on a
run ("no step of this kind is taken here") are guards.

* `Run.invariant` is the one induction over runs: what holds initially and is preserved by every
  guarded step holds of every run.
* `taken_if` and `taken_unless` invert a step that is taken under a condition.
* `keeps P` is the guard of the steps after which `P` holds, so `Run (both G (M.keeps P))` are the
  runs along which `P` holds at every moment.  `Run.exact` says when these are the runs whose
  steps meet a condition on the state before the step: it is enough that, step by step, `P` holds
  afterwards if and only if the condition held before.
* `logged` shows the labels together with the observations and `shown` the whole steps, for
  properties that speak of them; `Run.lasting` is the induction up to the first step that does not
  meet a condition and from it on.  `Each` is a property of every moment of a run, `Since` one of
  its last part.
* `Run.refines` takes the runs of one machine to the runs of another, step by step, and
  `Run.simulates` does where a step may be none to the other.
* `exec` is the executable counterpart for decidable guards; `exec_run` turns an evaluation into
  a run, which is how concrete runs are exhibited, and `exec_any` one with a test of its end. -/

namespace Reactive

/-- A machine: a label either is refused or leads to one next state with its observations. -/
structure Machine (σ α ω : Type*) where
  init : σ
  step : σ → α → Option (σ × List ω)

namespace Machine

variable {σ α ω : Type*} (M : Machine σ α ω)

/-- Runs all of whose steps meet the guard `G`, with their observations in order. -/
inductive Run (G : List ω → σ → α → Prop) : List ω → σ → Prop
  | start : Run G [] M.init
  | step {tr : List ω} {s s' : σ} {a : α} {os : List ω} :
      Run G tr s → G tr s a → M.step s a = some (s', os) → Run G (tr ++ os) s'

/-- The guard that every step meets. -/
def always (_ : List ω) (_ : σ) (_ : α) : Prop := True

instance (tr : List ω) (s : σ) (a : α) : Decidable (always tr s a) :=
  inferInstanceAs (Decidable True)

variable {M} {G G' : List ω → σ → α → Prop}

/-- What holds initially and is preserved by every guarded step holds of every run. -/
theorem Run.invariant {I : List ω → σ → Prop} (hinit : I [] M.init)
    (hstep : ∀ {tr s a s' os}, I tr s → G tr s a → M.step s a = some (s', os) → I (tr ++ os) s')
    {tr : List ω} {s : σ} (h : M.Run G tr s) : I tr s := by
  induction h with
  | start => exact hinit
  | step _ hg hs ih => exact hstep ih hg hs

/-- A weaker guard has more runs. -/
theorem Run.mono (hG : ∀ tr s a, G tr s a → G' tr s a) {tr : List ω} {s : σ}
    (h : M.Run G tr s) : M.Run G' tr s := by
  induction h with
  | start => exact .start
  | step _ hg hs ih => exact .step ih (hG _ _ _ hg) hs

/-- A step that is refused unless `p` holds. -/
theorem taken_if {p : Prop} [Decidable p] {r : σ × List ω} {s' : σ} {os : List ω}
    (hs : (if p then some r else none) = some (s', os)) : p ∧ r.1 = s' ∧ r.2 = os := by
  obtain ⟨hp, hr⟩ := Option.ite_none_right_eq_some.mp hs
  obtain rfl := Option.some.inj hr
  exact ⟨hp, rfl, rfl⟩

/-- A step that is refused if `p` holds. -/
theorem taken_unless {p : Prop} [Decidable p] {r : σ × List ω} {s' : σ} {os : List ω}
    (hs : (if p then none else some r) = some (s', os)) : ¬ p ∧ r.1 = s' ∧ r.2 = os := by
  obtain ⟨hp, hr⟩ := Option.ite_none_left_eq_some.mp hs
  obtain rfl := Option.some.inj hr
  exact ⟨hp, rfl, rfl⟩

/-! ### The exact condition for a property of runs -/

/-- Both guards at once. -/
def both (G G' : List ω → σ → α → Prop) (tr : List ω) (s : σ) (a : α) : Prop :=
  G tr s a ∧ G' tr s a

instance [∀ tr s a, Decidable (G tr s a)] [∀ tr s a, Decidable (G' tr s a)] (tr : List ω) (s : σ)
    (a : α) : Decidable (both G G' tr s a) := inferInstanceAs (Decidable (_ ∧ _))

variable (M) in
/-- The steps after which `P` holds. -/
def keeps (P : List ω → σ → Prop) (tr : List ω) (s : σ) (a : α) : Prop :=
  ∀ s' os, M.step s a = some (s', os) → P (tr ++ os) s'

theorem Run.left {tr : List ω} {s : σ} (h : M.Run (both G G') tr s) : M.Run G tr s :=
  h.mono fun _ _ _ hg => hg.1

/-- If each step keeps `P` exactly when it meets `C`, then the runs along which `P` holds at
every moment are the runs all of whose steps meet `C`. -/
theorem Run.exact {C : List ω → σ → α → Prop} {P : List ω → σ → Prop} (hinit : P [] M.init)
    (hstep : ∀ {tr s a s' os}, M.Run (both G C) tr s → P tr s → G tr s a →
      M.step s a = some (s', os) → (P (tr ++ os) s' ↔ C tr s a)) :
    (∀ tr s, M.Run (both G C) tr s → P tr s) ∧
      ∀ tr s, M.Run (both G (M.keeps P)) tr s → M.Run (both G C) tr s := by
  have hsafe : ∀ tr s, M.Run (both G C) tr s → P tr s := by
    intro tr s h
    induction h with
    | start => exact hinit
    | step h hg hs ih => exact (hstep h ih hg.1 hs).mpr hg.2
  refine ⟨hsafe, fun tr s h => ?_⟩
  induction h with
  | start => exact .start
  | step _ hg hs ih => exact ih.step ⟨hg.1, (hstep ih (hsafe _ _ ih) hg.1 hs).mp (hg.2 _ _ hs)⟩ hs

/-- `Run.exact` in any environment. -/
theorem Run.exact_always {C : List ω → σ → α → Prop} {P : List ω → σ → Prop} (hinit : P [] M.init)
    (hstep : ∀ {tr s a s' os}, M.Run C tr s → P tr s → M.step s a = some (s', os) →
      (P (tr ++ os) s' ↔ C tr s a)) :
    (∀ tr s, M.Run C tr s → P tr s) ∧ ∀ tr s, M.Run (M.keeps P) tr s → M.Run C tr s := by
  have hboth : ∀ G tr s, M.Run (both always G) tr s ↔ M.Run G tr s := by
    intro G tr s
    constructor
    · intro h
      exact h.mono fun _ _ _ hg => hg.2
    · intro h
      exact h.mono fun _ _ _ hg => ⟨trivial, hg⟩
  obtain ⟨hsafe, hmet⟩ := Run.exact (G := always) (C := C) hinit fun hrun hP _ hs =>
    hstep ((hboth C _ _).mp hrun) hP hs
  constructor
  · intro tr s h
    exact hsafe tr s ((hboth C tr s).mpr h)
  · intro tr s h
    exact (hboth C tr s).mp (hmet tr s ((hboth _ tr s).mpr h))

/-! ### Refinement -/

/-- A step of `M`, or standing still. -/
def Moves (M : Machine σ α ω) (s : σ) (os : List ω) (s' : σ) : Prop :=
  s' = s ∧ os = [] ∨ ∃ a, M.step s a = some (s', os)

/-- If what a step of `M` does is matched by a step of `N` or by standing still, with what `seen`
makes of its observations, then every run of `M` is matched by a run of `N`. -/
theorem Run.simulates {τ β υ : Type*} {N : Machine τ β υ} {R : List ω → σ → τ → Prop}
    {seen : ω → List υ} (hinit : R [] M.init N.init)
    (hstep : ∀ {tr s t a s' os}, R tr s t → G tr s a → M.step s a = some (s', os) →
      ∃ t', N.Moves t (os.flatMap seen) t' ∧ R (tr ++ os) s' t')
    {tr : List ω} {s : σ} (h : M.Run G tr s) : ∃ t, N.Run always (tr.flatMap seen) t ∧ R tr s t := by
  induction h with
  | start => exact ⟨_, .start, hinit⟩
  | step _ hg hs ih =>
      obtain ⟨t, hrun, hR⟩ := ih
      obtain ⟨t', hmoves, hR'⟩ := hstep hR hg hs
      rw [List.flatMap_append]
      obtain ⟨rfl, hnil⟩ | ⟨b, hb⟩ := hmoves
      · rw [hnil, List.append_nil]
        exact ⟨_, hrun, hR'⟩
      · exact ⟨t', hrun.step trivial hb, hR'⟩

/-- If every step of `M` is under `f` a step of `N`, with what `seen` makes of its observations,
then every run of `M` is a run of `N`. -/
theorem Run.refines {τ β υ : Type*} {N : Machine τ β υ} {f : σ → τ} {seen : ω → List υ}
    (hinit : f M.init = N.init)
    (hstep : ∀ {tr s a s' os}, M.Run G tr s → G tr s a → M.step s a = some (s', os) →
      ∃ b, N.step (f s) b = some (f s', os.flatMap seen))
    {tr : List ω} {s : σ} (h : M.Run G tr s) : N.Run always (tr.flatMap seen) (f s) := by
  induction h with
  | start =>
      rw [hinit]
      exact .start
  | step hrun hg hs ih =>
      obtain ⟨b, hb⟩ := hstep hrun hg hs
      rw [List.flatMap_append]
      exact ih.step trivial hb

/-! ### Labels in view -/

variable (M) in
/-- `M` with its labels in view: a step shows its label with its observations. -/
def logged : Machine σ α (α × List ω) where
  init := M.init
  step s a := (M.step s a).map fun done => (done.1, [(a, done.2)])

theorem logged_step {s s' : σ} {a : α} {es : List (α × List ω)} :
    M.logged.step s a = some (s', es) ↔ ∃ os, M.step s a = some (s', os) ∧ es = [(a, os)] := by
  simp only [logged, Option.map_eq_some_iff, Prod.mk.injEq, Prod.exists]
  constructor
  · rintro ⟨_, os, hs, rfl, rfl⟩
    exact ⟨os, hs, rfl⟩
  · rintro ⟨os, hs, rfl⟩
    exact ⟨s', os, hs, rfl, rfl⟩

theorem Run.unlogged {G : List (α × List ω) → σ → α → Prop} {tr : List (α × List ω)} {s : σ}
    (h : M.logged.Run G tr s) : M.Run always (tr.flatMap (·.2)) s := by
  refine Run.refines (M := M.logged) (N := M) (f := id) rfl (fun {_ _ a _ _} _ _ hs => ?_) h
  obtain ⟨os, hos, rfl⟩ := logged_step.mp hs
  exact ⟨a, by simpa using hos⟩

/-- A step that was taken. -/
structure Taken (σ α ω : Type*) where
  before : σ
  label : α
  os : List ω
  after : σ

variable (M) in
/-- `M` with its steps in view. -/
def shown : Machine σ α (Taken σ α ω) where
  init := M.init
  step s a := (M.step s a).map fun done => (done.1, [⟨s, a, done.2, done.1⟩])

theorem shown_step {s s' : σ} {a : α} {es : List (Taken σ α ω)} :
    M.shown.step s a = some (s', es) ↔
      ∃ os, M.step s a = some (s', os) ∧ es = [⟨s, a, os, s'⟩] := by
  simp only [shown, Option.map_eq_some_iff, Prod.mk.injEq, Prod.exists]
  constructor
  · rintro ⟨_, os, hs, rfl, rfl⟩
    exact ⟨os, hs, rfl⟩
  · rintro ⟨os, hs, rfl⟩
    exact ⟨s', os, hs, rfl, rfl⟩

theorem Run.taken {G : List (Taken σ α ω) → σ → α → Prop} {tr : List (Taken σ α ω)} {s : σ}
    (h : M.shown.Run G tr s) : ∀ m ∈ tr, M.step m.before m.label = some (m.after, m.os) := by
  refine h.invariant (I := fun tr _ => ∀ m ∈ tr, M.step m.before m.label = some (m.after, m.os))
    (by simp) fun {_ _ _ _ _} hi _ hs => ?_
  obtain ⟨os, hos, rfl⟩ := shown_step.mp hs
  intro m hm
  obtain hm | hm := List.mem_append.mp hm
  · exact hi m hm
  · obtain rfl := List.mem_singleton.mp hm
    exact hos

/-- What holds while all steps meet `C`, and what holds from the first step on that does not. -/
theorem Run.lasting {C : σ → α → Prop} {P Q : List (Taken σ α ω) → σ → Prop}
    (hinit : P [] M.init)
    (hstep : ∀ {h s a s' os}, P h s → M.step s a = some (s', os) →
      (C s a → P (h ++ [⟨s, a, os, s'⟩]) s') ∧ (¬ C s a → Q (h ++ [⟨s, a, os, s'⟩]) s'))
    (hlost : ∀ {h s a s' os}, Q h s → M.step s a = some (s', os) →
      Q (h ++ [⟨s, a, os, s'⟩]) s')
    {G : List (Taken σ α ω) → σ → α → Prop} {h : List (Taken σ α ω)} {s : σ}
    (hrun : M.shown.Run G h s) :
    (∀ m ∈ h, C m.before m.label) ∧ P h s ∨ (∃ m ∈ h, ¬ C m.before m.label) ∧ Q h s := by
  induction hrun with
  | start => exact .inl ⟨by simp, hinit⟩
  | @step h s s' a es _ _ hs ih =>
      obtain ⟨os, hos, rfl⟩ := shown_step.mp hs
      obtain ⟨hall, hg⟩ | ⟨⟨m, hm, hnot⟩, hb⟩ := ih
      · by_cases hC : C s a
        · refine .inl ⟨fun m hm => ?_, (hstep hg hos).1 hC⟩
          obtain hm | hm := List.mem_append.mp hm
          · exact hall m hm
          · obtain rfl := List.mem_singleton.mp hm
            exact hC
        · exact .inr ⟨⟨_, List.mem_append_right _ List.mem_cons_self, hC⟩, (hstep hg hos).2 hC⟩
      · exact .inr ⟨⟨m, List.mem_append_left _ hm, hnot⟩, hlost hb hos⟩

/-- Each observation is one that `p` allows after what was observed before. -/
def Each (p : List ω → ω → Prop) (tr : List ω) : Prop :=
  ∀ before o after, tr = before ++ o :: after → p before o

theorem each_nil (p : List ω → ω → Prop) : Each p [] := by
  intro before o after h
  simp at h

theorem each_snoc {p : List ω → ω → Prop} {tr : List ω} {o : ω} :
    Each p (tr ++ [o]) ↔ Each p tr ∧ p tr o := by
  constructor
  · intro h
    exact ⟨fun before o' after he => h before o' (after ++ [o]) (by simp [he]), h tr o [] rfl⟩
  · rintro ⟨h, ho⟩ before o' after he
    obtain rfl | ⟨after', o'', rfl⟩ := List.eq_nil_or_concat after
    · obtain ⟨rfl, hlast⟩ := List.append_inj' he rfl
      obtain rfl := (List.cons.inj hlast).1
      exact ho
    · rw [List.concat_eq_append, ← List.cons_append, ← List.append_assoc] at he
      obtain ⟨rfl, -⟩ := List.append_inj' he rfl
      exact h before o' after' rfl

/-- Since an observation that meets `p`, all have met `q`. -/
def Since (p q : ω → Prop) (tr : List ω) : Prop :=
  ∃ before o after, tr = before ++ o :: after ∧ p o ∧ ∀ o' ∈ after, q o'

theorem since_nil (p q : ω → Prop) : ¬ Since p q [] := by
  rintro ⟨before, o, after, he, -⟩
  simp at he

theorem since_snoc {p q : ω → Prop} {tr : List ω} {o : ω} :
    Since p q (tr ++ [o]) ↔ p o ∨ Since p q tr ∧ q o := by
  constructor
  · rintro ⟨before, o', after, he, hp, hq⟩
    obtain rfl | ⟨after', last, rfl⟩ := List.eq_nil_or_concat after
    · obtain ⟨-, hlast⟩ := List.append_inj' he rfl
      obtain rfl := (List.cons.inj hlast).1
      exact .inl hp
    · rw [List.concat_eq_append] at he hq
      rw [← List.cons_append, ← List.append_assoc] at he
      obtain ⟨rfl, hlast⟩ := List.append_inj' he rfl
      obtain rfl := (List.cons.inj hlast).1
      exact .inr ⟨⟨before, o', after', rfl, hp, fun o'' hm => hq o'' (List.mem_append_left _ hm)⟩,
        hq o (List.mem_append_right _ List.mem_cons_self)⟩
  · rintro (hp | ⟨⟨before, o', after, rfl, hp, hq⟩, hlast⟩)
    · exact ⟨tr, o, [], rfl, hp, by simp⟩
    · refine ⟨before, o', after ++ [o], by simp, hp, fun o'' hm => ?_⟩
      obtain hm | hm := List.mem_append.mp hm
      · exact hq o'' hm
      · obtain rfl := List.mem_singleton.mp hm
        exact hlast

theorem since_singleton {p q : ω → Prop} {o : ω} : Since p q [o] ↔ p o := by
  rw [← List.nil_append [o], since_snoc]
  simp [since_nil]

theorem since_append {p q : ω → Prop} {tr os : List ω} :
    Since p q (tr ++ os) ↔ Since p q os ∨ Since p q tr ∧ ∀ o ∈ os, q o := by
  induction os generalizing tr with
  | nil => simp [since_nil]
  | cons o os ih =>
      have hcons : Since p q (o :: os) ↔ Since p q os ∨ p o ∧ ∀ o' ∈ os, q o' := by
        rw [← List.singleton_append, ih, since_singleton]
      rw [List.append_cons, ih, since_snoc, hcons, List.forall_mem_cons]
      tauto

/-! ### Executing labels -/

variable (M) in
/-- Execute labels from a point of a run, refusing any step that does not meet the guard. -/
def execFrom (G : List ω → σ → α → Prop) [∀ tr s a, Decidable (G tr s a)] :
    List α → List ω → σ → Option (List ω × σ)
  | [], tr, s => some (tr, s)
  | a :: as, tr, s =>
      if G tr s a then
        match M.step s a with
        | some (s', os) => execFrom G as (tr ++ os) s'
        | none => none
      else none

variable (M) in
/-- Execute labels from the initial state. -/
def exec (G : List ω → σ → α → Prop) [∀ tr s a, Decidable (G tr s a)] (as : List α) :
    Option (List ω × σ) := M.execFrom G as [] M.init

variable [∀ tr s a, Decidable (G tr s a)]

theorem execFrom_run : ∀ {as : List α} {tr tr' : List ω} {s s' : σ}, M.Run G tr s →
    M.execFrom G as tr s = some (tr', s') → M.Run G tr' s'
  | [], _, _, _, _, h, he => by
      simp only [execFrom, Option.some.injEq, Prod.mk.injEq] at he
      obtain ⟨rfl, rfl⟩ := he
      exact h
  | a :: as, tr, tr', s, s', h, he => by
      simp only [execFrom] at he
      split_ifs at he with hg
      cases hs : M.step s a with
      | none => simp [hs] at he
      | some p =>
          obtain ⟨s₁, os⟩ := p
          simp only [hs] at he
          exact execFrom_run (h.step hg hs) he

/-- An accepted execution is a run. -/
theorem exec_run (as : List α) {tr : List ω} {s : σ} (h : M.exec G as = some (tr, s)) :
    M.Run G tr s := execFrom_run .start h

/-- An accepted execution that passes a test is a run that does. -/
theorem exec_any (as : List α) {p : List ω → σ → Prop} [∀ tr s, Decidable (p tr s)]
    (h : (M.exec G as).any (fun r => decide (p r.1 r.2)) = true) :
    ∃ tr s, M.Run G tr s ∧ p tr s := by
  obtain ⟨⟨tr, s⟩, he, hp⟩ := (Option.any_eq_true ..).mp h
  exact ⟨tr, s, exec_run as he, of_decide_eq_true hp⟩

end Machine

end Reactive
