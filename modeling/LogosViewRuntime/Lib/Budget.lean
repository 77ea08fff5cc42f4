import Mathlib.Algebra.Order.Monoid.Canonical.Basic
import Mathlib.Algebra.BigOperators.Group.List.Basic

/-! # Checks that spend a budget

A check goes through items one by one, adds what each costs to what has been spent, and gives up
as soon as an item is not allowed or the limit is passed.  Costs are never negative, so it accepts
exactly when every item is allowed and the whole cost is within the limit (`Admits`): giving up
early and the order of the items make no difference.  `Checks` says this of a result, and its
lemmas follow the shapes such a check is written in: nothing to check, one item, one part after
another. -/

namespace Budget

variable {ι M β : Type*} [AddCommMonoid M]

/-- The items, the limit, and what a running total says has been spent. -/
structure Rules (ι M β : Type*) where
  ok : ι → Prop
  cost : ι → M
  limit : M
  spent : β → M

namespace Rules

variable (R : Rules ι M β)

/-- What some items cost. -/
def total (items : List ι) : M := (items.map R.cost).sum

variable {R} {i : ι} {items items' : List ι}

theorem total_append : R.total (items ++ items') = R.total items + R.total items' := by
  rw [total, List.map_append, List.sum_append, total, total]

theorem total_cons : R.total (i :: items) = R.cost i + R.total items := by
  rw [total, List.map_cons, List.sum_cons, total]

variable [PartialOrder M]

variable (R) in
/-- The items are allowed and there is enough left for them. -/
structure Admits (spent : M) (items : List ι) : Prop where
  ok : ∀ i ∈ items, R.ok i
  le : spent + R.total items ≤ R.limit

variable (R) in
/-- The result is whether the items are admitted, with what has been spent if they are. -/
structure Checks (spent : M) (items : List ι) (result : Bool × β) : Prop where
  iff : result.1 = true ↔ R.Admits spent items
  spent : result.1 = true → R.spent result.2 = spent + R.total items

variable {spent : M} {b : β} {result : Bool × β}

theorem admits_nil : R.Admits spent [] ↔ spent ≤ R.limit := by
  constructor
  · intro h
    simpa [total] using h.le
  · intro h
    exact ⟨by simp, by simpa [total] using h⟩

theorem Checks.nil (h : spent ≤ R.limit) (hb : R.spent b = spent) : R.Checks spent [] (true, b) :=
  ⟨iff_of_true rfl (admits_nil.mpr h), fun _ => by simp [total, hb]⟩

variable [CanonicallyOrderedAdd M]

/-- One part after another. -/
theorem admits_append : R.Admits spent (items ++ items') ↔
    R.Admits spent items ∧ R.Admits (spent + R.total items) items' := by
  constructor
  · rintro ⟨hok, hle⟩
    rw [total_append, ← add_assoc] at hle
    obtain ⟨hok, hok'⟩ := List.forall_mem_append.mp hok
    exact ⟨⟨hok, le_self_add.trans hle⟩, ⟨hok', hle⟩⟩
  · rintro ⟨h, h'⟩
    refine ⟨List.forall_mem_append.mpr ⟨h.ok, h'.ok⟩, ?_⟩
    rw [total_append, ← add_assoc]
    exact h'.le

/-- One item is allowed and can be paid. -/
theorem admits_cons : R.Admits spent (i :: items) ↔
    R.ok i ∧ spent + R.cost i ≤ R.limit ∧ R.Admits (spent + R.cost i) items := by
  have hcost : R.total [i] = R.cost i := by simp [total]
  rw [← List.singleton_append, admits_append, hcost]
  constructor
  · rintro ⟨h, h'⟩
    have hle := h.le
    rw [hcost] at hle
    exact ⟨h.ok i List.mem_cons_self, hle, h'⟩
  · rintro ⟨hok, hle, h'⟩
    exact ⟨⟨by simpa using hok, hcost ▸ hle⟩, h'⟩

/-! ### A check goes on or gives up -/

/-- An item that is not allowed, or not within the limit, and whatever comes after it. -/
theorem Checks.reject (h : ¬ (R.ok i ∧ spent + R.cost i ≤ R.limit)) :
    R.Checks spent (i :: items) (false, b) := by
  refine ⟨iff_of_false Bool.false_ne_true fun hadmits => h ?_, nofun⟩
  obtain ⟨hok, hle, -⟩ := admits_cons.mp hadmits
  exact ⟨hok, hle⟩

/-- An item that is allowed and within the limit, and the check of the rest. -/
theorem Checks.cons (hok : R.ok i) (hle : spent + R.cost i ≤ R.limit)
    (h : R.Checks (spent + R.cost i) items result) : R.Checks spent (i :: items) result := by
  refine ⟨h.iff.trans ?_, fun hr => ?_⟩
  · rw [admits_cons]
    exact ⟨fun h => ⟨hok, hle, h⟩, fun h => h.2.2⟩
  · rw [h.spent hr, total_cons, add_assoc]

/-- One part, and if it is admitted another. -/
theorem Checks.append (h : R.Checks spent items result) {next : β → Bool × β}
    (hnext : R.Admits spent items → R.spent result.2 = spent + R.total items →
      R.Checks (spent + R.total items) items' (next result.2)) :
    R.Checks spent (items ++ items') (if result.1 then next result.2 else (false, result.2)) := by
  cases hr : result.1 with
  | false =>
      refine ⟨iff_of_false Bool.false_ne_true fun hadmits => ?_, nofun⟩
      rw [h.iff.mpr (admits_append.mp hadmits).1] at hr
      cases hr
  | true =>
      have hadmits := h.iff.mp hr
      have h' := hnext hadmits (h.spent hr)
      rw [if_pos rfl]
      refine ⟨h'.iff.trans ?_, fun hr' => ?_⟩
      · rw [admits_append]
        exact ⟨fun h' => ⟨hadmits, h'⟩, fun h => h.2⟩
      · rw [h'.spent hr', total_append, add_assoc]

end Rules

end Budget
