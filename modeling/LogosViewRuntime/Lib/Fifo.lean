import LogosViewRuntime.Lib.Machine
import Mathlib.Algebra.GroupWithZero.Nat

/-! # Streams

What a byte stream is for: symbols enter in bursts at one end and leave, up to so many at a time,
at the other.  What left and what is inside are together what entered (`run_split`), so neither
the bursts nor how many left at a time can be told from the symbols. -/

namespace Reactive.Fifo

variable {α : Type*}

inductive Action (α : Type*) where
  | put (xs : List α)
  | get (n : ℕ)

inductive Obs (α : Type*) where
  | put (xs : List α)
  | got (n : ℕ) (xs : List α)

/-- A get takes what there is when there is less than it asks for. -/
def machine (α : Type*) : Machine (List α) (Action α) (Obs α) where
  init := []
  step s
    | .put xs => some (s ++ xs, [.put xs])
    | .get n => some (s.drop n, [.got n (s.take n)])

/-- The symbols that entered. -/
def entered (tr : List (Obs α)) : List α :=
  tr.flatMap fun | .put xs => xs | .got _ _ => []

/-- The symbols that left. -/
def left (tr : List (Obs α)) : List α :=
  tr.flatMap fun | .put _ => [] | .got _ xs => xs

variable {tr tr' : List (Obs α)} {s s' : List α} {G : List (Obs α) → List α → Action α → Prop}

/-- Nothing is lost, duplicated or reordered. -/
theorem run_split (h : (machine α).Run G tr s) : left tr ++ s = entered tr := by
  refine h.invariant (I := fun tr s => left tr ++ s = entered tr) rfl fun {_ _ a _ _} hi _ hs => ?_
  unfold left entered at hi ⊢
  cases a with
  | put xs =>
      obtain ⟨rfl, rfl⟩ := Prod.mk.inj (Option.some.inj hs)
      simp [← hi]
  | get n =>
      obtain ⟨rfl, rfl⟩ := Prod.mk.inj (Option.some.inj hs)
      simp [← hi]

/-- Two runs into which the same symbols went, and of which equally many left, agree on what left
and on what is inside. -/
theorem run_unique (h : (machine α).Run G tr s) (h' : (machine α).Run G tr' s')
    (hentered : entered tr = entered tr') (hlength : (left tr).length = (left tr').length) :
    left tr = left tr' ∧ s = s' := by
  apply List.append_inj _ hlength
  rw [run_split h, run_split h', hentered]

/-- What leaves in several gets. -/
def gets : List ℕ → List α → List α
  | [], _ => []
  | n :: ns, s => s.take n ++ gets ns (s.drop n)

/-- Several gets are one. -/
theorem gets_eq_take (ns : List ℕ) (s : List α) : gets ns s = s.take ns.sum := by
  induction ns generalizing s with
  | nil => simp [gets]
  | cons n ns ih => rw [gets, ih, List.sum_cons, List.take_add]

end Reactive.Fifo
