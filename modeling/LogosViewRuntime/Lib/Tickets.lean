import LogosViewRuntime.Lib.Machine

/-! # A waiting room with tickets

What comes in is given a ticket, and each ticket serves whoever has waited longest.  When the room
is cleared its tickets stay out, so as many of them serve nobody, sooner or later, as were sent
away (`run_drained`); while nobody is sent away each is served, in the order of arrival
(`run_kept`). -/

namespace Reactive.Tickets

variable {α : Type*}

structure Room (α : Type*) where
  waiting : List α := []
  tickets : ℕ := 0

inductive Action (α : Type*) where
  | enter (x : α)
  | serve
  | clear

inductive Obs (α : Type*) where
  | entered (x : α)
  | served (x : Option α)
  | cleared (xs : List α)

def step (s : Room α) : Action α → Option (Room α × List (Obs α))
  | .enter x => some ({ waiting := s.waiting ++ [x], tickets := s.tickets + 1 }, [.entered x])
  | .serve =>
      if s.tickets = 0 then none
      else some ({ waiting := s.waiting.tail, tickets := s.tickets - 1 }, [.served s.waiting.head?])
  | .clear => some ({ s with waiting := [] }, [.cleared s.waiting])

def machine (α : Type*) : Machine (Room α) (Action α) (Obs α) where
  init := {}
  step := step

namespace Obs

def entry : Obs α → List α
  | .entered x => [x]
  | _ => []

def service : Obs α → List α
  | .served x => x.toList
  | _ => []

def loss : Obs α → List α
  | .cleared xs => xs
  | _ => []

def isVain : Obs α → Bool
  | .served x => x.isNone
  | _ => false

end Obs

/-- Who came in. -/
def entered (tr : List (Obs α)) : List α := tr.flatMap Obs.entry

/-- Who was served. -/
def served (tr : List (Obs α)) : List α := tr.flatMap Obs.service

/-- Who was sent away. -/
def lost (tr : List (Obs α)) : List α := tr.flatMap Obs.loss

/-- The tickets that served nobody. -/
def vain (tr : List (Obs α)) : ℕ := tr.countP Obs.isVain

/-- Tickets are for those who wait and for those who were sent away. -/
structure Balanced (tr : List (Obs α)) (s : Room α) : Prop where
  tickets : s.tickets + vain tr = s.waiting.length + (lost tr).length
  vain : vain tr ≤ (lost tr).length
  order : (served tr ++ s.waiting).Sublist (entered tr)
  kept : lost tr = [] → served tr ++ s.waiting = entered tr

variable {tr : List (Obs α)} {s s' : Room α} {G : List (Obs α) → Room α → Action α → Prop}

theorem Balanced.enter (h : Balanced tr s) (x : α) :
    Balanced (tr ++ [.entered x])
      { waiting := s.waiting ++ [x], tickets := s.tickets + 1 } := by
  obtain ⟨htickets, hvain, horder, hkept⟩ := h
  have hcount : Tickets.vain (tr ++ [.entered x]) = Tickets.vain tr := by simp [Tickets.vain, Obs.isVain]
  have hlost : lost (tr ++ [.entered x]) = lost tr := by simp [lost, Obs.loss]
  have hserved : served (tr ++ [.entered x]) = served tr := by simp [served, Obs.service]
  have hentered : entered (tr ++ [.entered x]) = entered tr ++ [x] := by simp [entered, Obs.entry]
  constructor
  · rw [hcount, hlost]
    simp only [List.length_append, List.length_singleton]
    omega
  · rw [hcount, hlost]
    exact hvain
  · rw [hserved, hentered, ← List.append_assoc]
    exact horder.append (List.Sublist.refl [x])
  · rw [hlost, hserved, hentered, ← List.append_assoc]
    intro hnil
    rw [hkept hnil]

theorem Balanced.serve (h : Balanced tr s) (htickets : s.tickets ≠ 0) :
    Balanced (tr ++ [.served s.waiting.head?])
      { waiting := s.waiting.tail, tickets := s.tickets - 1 } := by
  obtain ⟨hbalance, hvain, horder, hkept⟩ := h
  have hserved : s.waiting.head?.toList ++ s.waiting.tail = s.waiting := by
    cases s.waiting <;> rfl
  have hlost : lost (tr ++ [.served s.waiting.head?]) = lost tr := by simp [lost, Obs.loss]
  have hall : served (tr ++ [.served s.waiting.head?]) ++ s.waiting.tail =
      served tr ++ s.waiting := by
    simp [served, Obs.service, hserved]
  have hentered : entered (tr ++ [.served s.waiting.head?]) = entered tr := by simp [entered, Obs.entry]
  have hcount : Tickets.vain (tr ++ [.served s.waiting.head?]) =
      Tickets.vain tr + if s.waiting = [] then 1 else 0 := by
    simp only [Tickets.vain, List.countP_append]
    cases s.waiting <;> simp [Obs.isVain]
  constructor
  · rw [hcount, hlost]
    dsimp only
    rw [List.length_tail]
    cases hwaiting : s.waiting with
    | nil =>
        rw [hwaiting] at hbalance
        simp at hbalance ⊢
        omega
    | cons x xs =>
        rw [hwaiting] at hbalance
        simp at hbalance ⊢
        omega
  · rw [hcount, hlost]
    split_ifs with hwaiting
    · -- nobody waits, so the ticket was for someone who was sent away
      rw [hwaiting, List.length_nil] at hbalance
      omega
    · exact hvain
  · rwa [hall, hentered]
  · rw [hlost, hall, hentered]
    exact hkept

theorem Balanced.clear (h : Balanced tr s) :
    Balanced (tr ++ [.cleared s.waiting]) { s with waiting := [] } := by
  obtain ⟨htickets, hvain, horder, hkept⟩ := h
  have hcount : Tickets.vain (tr ++ [.cleared s.waiting]) = Tickets.vain tr := by
    simp [Tickets.vain, Obs.isVain]
  have hlost : lost (tr ++ [.cleared s.waiting]) = lost tr ++ s.waiting := by simp [lost, Obs.loss]
  have hserved : served (tr ++ [.cleared s.waiting]) = served tr := by simp [served, Obs.service]
  have hentered : entered (tr ++ [.cleared s.waiting]) = entered tr := by simp [entered, Obs.entry]
  constructor
  · rw [hcount, hlost, List.length_append]
    simp only [List.length_nil]
    omega
  · rw [hcount, hlost, List.length_append]
    omega
  · rw [hserved, hentered, List.append_nil]
    exact (List.sublist_append_left _ _).trans horder
  · rw [hserved, hentered, hlost]
    intro hnil
    obtain ⟨hlost, hwaiting⟩ := List.append_eq_nil_iff.mp hnil
    rw [← hkept hlost, hwaiting]

theorem run_balanced (h : (machine α).Run G tr s) : Balanced tr s := by
  have hinit : Balanced [] (machine α).init := ⟨rfl, Nat.le_refl 0, List.nil_sublist _, fun _ => rfl⟩
  refine h.invariant hinit fun {_ s a _ _} hi _ hs => ?_
  cases a with
  | enter x =>
      obtain ⟨rfl, rfl⟩ := Prod.mk.inj (Option.some.inj hs)
      exact hi.enter x
  | serve =>
      simp only [machine, step, Option.ite_none_left_eq_some, Option.some.injEq] at hs
      obtain ⟨htickets, hs⟩ := hs
      obtain ⟨rfl, rfl⟩ := Prod.mk.inj hs
      exact hi.serve htickets
  | clear =>
      obtain ⟨rfl, rfl⟩ := Prod.mk.inj (Option.some.inj hs)
      exact hi.clear

/-- While nobody is sent away no ticket is in vain, and all are served in the order in which they
came in but for those who wait. -/
theorem run_kept (h : (machine α).Run G tr s) (hlost : lost tr = []) :
    vain tr = 0 ∧ served tr ++ s.waiting = entered tr := by
  obtain ⟨-, hvain, -, hkept⟩ := run_balanced h
  rw [hlost, List.length_nil] at hvain
  exact ⟨by omega, hkept hlost⟩

/-- When no ticket is out, nobody waits, and as many tickets were in vain as were sent away. -/
theorem run_drained (h : (machine α).Run G tr s) (htickets : s.tickets = 0) :
    s.waiting = [] ∧ vain tr = (lost tr).length := by
  obtain ⟨hbalance, hvain, -, -⟩ := run_balanced h
  have hwaiting : s.waiting.length = 0 := by omega
  exact ⟨List.length_eq_zero_iff.mp hwaiting, by omega⟩

end Reactive.Tickets
