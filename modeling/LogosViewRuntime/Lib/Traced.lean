/-! # Computations with a trace

A value together with the events of the computation that produced it, in order.  A program written
with `emit` says what it does on the way; its `val` is the program without its events. -/

/-- A value and the events on the way to it. -/
structure Traced (ω α : Type) where
  val : α
  trace : List ω
deriving DecidableEq, Repr

namespace Traced

variable {ω α β : Type}

instance : Monad (Traced ω) where
  pure a := ⟨a, []⟩
  bind x f := ⟨(f x.val).val, x.trace ++ (f x.val).trace⟩

def emit (o : ω) : Traced ω Unit := ⟨(), [o]⟩

@[simp] theorem pure_val (a : α) : (pure a : Traced ω α).val = a := rfl

@[simp] theorem pure_trace (a : α) : (pure a : Traced ω α).trace = [] := rfl

@[simp] theorem bind_val (x : Traced ω α) (f : α → Traced ω β) :
    (x >>= f).val = (f x.val).val := rfl

@[simp] theorem emit_trace (o : ω) : (emit o).trace = [o] := rfl

/-- What every event of both parts meets. -/
theorem forall_mem_bind {p : ω → Prop} {x : Traced ω α} {f : α → Traced ω β} :
    (∀ o ∈ (x >>= f).trace, p o) ↔ (∀ o ∈ x.trace, p o) ∧ ∀ o ∈ (f x.val).trace, p o :=
  List.forall_mem_append

theorem countP_bind (p : ω → Bool) (x : Traced ω α) (f : α → Traced ω β) :
    (x >>= f).trace.countP p = x.trace.countP p + (f x.val).trace.countP p :=
  List.countP_append

end Traced
