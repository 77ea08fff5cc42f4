import LogosViewRuntime.Lib.Machine
import Mathlib.Logic.Function.Basic

/-! # Slots

Values are put into named slots, one in each, and who asks a slot for its value takes it out.  A
history of slots is `Honest` if all that was ever asked for was answered with what was put last
into that slot and not taken or cleared since. -/

namespace Reactive.Slots

variable {κ ν : Type*} [DecidableEq κ]

inductive Op (κ ν : Type*) where
  | put (k : κ) (v : ν)
  | clear (k : κ)
  | asked (k : κ) (got : List ν)
deriving DecidableEq

/-- What is in the slots afterwards. -/
def Op.apply (slots : κ → Option ν) : Op κ ν → κ → Option ν
  | .put k v => Function.update slots k (some v)
  | .clear k => Function.update slots k none
  | .asked k got => if got.isEmpty then slots else Function.update slots k none

/-- What was put last into each slot and not taken or cleared since. -/
def latest (ops : List (Op κ ν)) : κ → Option ν := ops.foldl Op.apply fun _ => none

/-- Who asks for a slot gets exactly what was put last into it and not taken or cleared since. -/
def Honest : List (Op κ ν) → Prop :=
  Machine.Each fun before op => ∀ k got, op = .asked k got → got = (latest before k).toList

variable {ops : List (Op κ ν)} {op : Op κ ν} {k : κ} {v : ν} {got : List ν}

theorem latest_snoc (ops : List (Op κ ν)) (op : Op κ ν) :
    latest (ops ++ [op]) = op.apply (latest ops) := by
  simp [latest]

theorem honest_nil : Honest ([] : List (Op κ ν)) := Machine.each_nil _

theorem honest_asked : Honest (ops ++ [.asked k got]) ↔
    Honest ops ∧ got = (latest ops k).toList := by
  rw [Honest, Machine.each_snoc]
  simp

theorem honest_put : Honest (ops ++ [.put k v]) ↔ Honest ops := by
  rw [Honest, Machine.each_snoc]
  simp

theorem honest_clear : Honest (ops ++ [.clear k]) ↔ Honest ops := by
  rw [Honest, Machine.each_snoc]
  simp

/-- An honest answer leaves the slot empty. -/
theorem latest_asked (h : got = (latest ops k).toList) :
    latest (ops ++ [.asked k got]) = Function.update (latest ops) k none := by
  rw [latest_snoc, Op.apply]
  split_ifs with hgot
  · rw [h, List.isEmpty_iff, Option.toList_eq_nil_iff] at hgot
    rw [← hgot, Function.update_eq_self]
  · rfl

end Reactive.Slots
