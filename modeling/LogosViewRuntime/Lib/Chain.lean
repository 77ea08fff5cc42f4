import Mathlib.Data.Fintype.Pigeonhole

/-! # Following a pointer

Objects that each point to another one or to nothing.  `loop` is the loop that visits an object,
the object it points to, and so on; whether it ends is a matter of the pointers alone.  It ends
exactly where there is a `Chain`, a list of what is met up to an object that points nowhere, and
then its result is that of a fold over the chain.  Among finitely many objects there is a chain
from an object exactly if none is met twice from there (`chain_iff_acyclic`). -/

namespace Pointer

variable {ι β : Type*} (next : ι → Option ι)

/-- `for (node = …; node; node = next(node)) value = visit(value, node)`, of which `fuel` rounds
are run at most. -/
def loop (visit : β → ι → β) : ℕ → Option ι → β → Option β
  | _, none, value => some value
  | 0, some _, _ => none
  | fuel + 1, some node, value => loop visit fuel (next node) (visit value node)

/-- The object that is met after `n` rounds from `i`. -/
def walk : ℕ → ι → Option ι
  | 0, i => some i
  | n + 1, i => (next i).bind (walk n)

/-- No object is met twice from `i` on. -/
def Acyclic (i : ι) : Prop := ∀ m n j, walk next m i = some j → walk next n i = some j → m = n

/-- What is met from an object on, up to one that points nowhere. -/
inductive Chain : ι → List ι → Prop
  | last {i : ι} (hnext : next i = none) : Chain i [i]
  | link {i j : ι} {l : List ι} (hnext : next i = some j) (rest : Chain j l) : Chain i (i :: l)

variable {next}

namespace Chain

theorem unique {i : ι} {l l' : List ι} (h : Chain next i l) (h' : Chain next i l') : l = l' := by
  induction h generalizing l' with
  | last hnext =>
      cases h' with
      | last _ => rfl
      | link hnext' _ =>
          rw [hnext] at hnext'
          cases hnext'
  | link hnext _ ih =>
      cases h' with
      | last hnext' =>
          rw [hnext] at hnext'
          cases hnext'
      | link hnext' rest' =>
          obtain rfl := Option.some.inj (hnext.symm.trans hnext')
          rw [ih rest']

/-- What is met after `n` rounds has the rest of the chain. -/
theorem of_walk {i j : ι} {l : List ι} (h : Chain next i l) {n : ℕ}
    (hwalk : walk next n i = some j) : ∃ l', Chain next j l' ∧ l'.length + n = l.length := by
  induction n generalizing i l with
  | zero =>
      obtain rfl := Option.some.inj hwalk
      exact ⟨l, h, rfl⟩
  | succ n ih =>
      cases h with
      | last hnext => simp [walk, hnext] at hwalk
      | link hnext rest =>
          rw [walk, hnext, Option.bind_some] at hwalk
          obtain ⟨l', hl', hlength⟩ := ih rest hwalk
          exact ⟨l', hl', by rw [List.length_cons, ← hlength, Nat.add_assoc]⟩

theorem acyclic {i : ι} {l : List ι} (h : Chain next i l) : Acyclic next i := by
  intro m n j hm hn
  obtain ⟨l₁, h₁, hlength₁⟩ := h.of_walk hm
  obtain ⟨l₂, h₂, hlength₂⟩ := h.of_walk hn
  obtain rfl := h₁.unique h₂
  omega

theorem of_mem {i j : ι} {l : List ι} (h : Chain next i l) (hmem : j ∈ l) :
    ∃ l', Chain next j l' ∧ l'.length ≤ l.length := by
  induction h with
  | last hnext =>
      obtain rfl := List.mem_singleton.mp hmem
      exact ⟨_, .last hnext, Nat.le_refl _⟩
  | link hnext rest ih =>
      obtain rfl | hmem := List.mem_cons.mp hmem
      · exact ⟨_, .link hnext rest, Nat.le_refl _⟩
      · obtain ⟨l', hl', hlength⟩ := ih hmem
        exact ⟨l', hl', Nat.le_succ_of_le hlength⟩

theorem nodup {i : ι} {l : List ι} (h : Chain next i l) : l.Nodup := by
  induction h with
  | last _ => exact List.nodup_singleton _
  | link hnext rest ih =>
      refine List.nodup_cons.mpr ⟨fun hmem => ?_, ih⟩
      obtain ⟨l', hl', hlength⟩ := rest.of_mem hmem
      obtain rfl := hl'.unique (.link hnext rest)
      exact absurd hlength (Nat.not_succ_le_self _)

/-- The loop takes a round for each object of the chain. -/
theorem loop {visit : β → ι → β} {i : ι} {l : List ι} (h : Chain next i l) {fuel : ℕ}
    (hfuel : l.length ≤ fuel) (value : β) :
    Pointer.loop next visit fuel (some i) value = some (l.foldl visit value) := by
  induction h generalizing fuel value with
  | last hnext =>
      obtain ⟨fuel, rfl⟩ := Nat.exists_eq_add_of_le' hfuel
      rw [List.length_singleton, Pointer.loop, hnext]
      cases fuel <;> rfl
  | @link i j l hnext _ ih =>
      obtain ⟨fuel, rfl⟩ := Nat.exists_eq_add_of_le' hfuel
      rw [List.length_cons, ← Nat.add_assoc, Pointer.loop, hnext]
      exact ih (Nat.le_add_left _ _) _

end Chain

/-- A loop that ends has visited a chain. -/
theorem chain_of_loop {visit : β → ι → β} {fuel : ℕ} {i : ι} {value result : β}
    (h : loop next visit fuel (some i) value = some result) :
    ∃ l, Chain next i l ∧ result = l.foldl visit value := by
  induction fuel generalizing i value with
  | zero => cases h
  | succ fuel ih =>
      rw [loop] at h
      cases hnext : next i with
      | none =>
          rw [hnext] at h
          refine ⟨[i], .last hnext, ?_⟩
          cases fuel <;> exact (Option.some.inj h).symm
      | some j =>
          rw [hnext] at h
          obtain ⟨l, hl, rfl⟩ := ih h
          exact ⟨i :: l, .link hnext hl, rfl⟩

theorem chain_of_walk {n : ℕ} {i : ι} (h : walk next n i = none) : ∃ l, Chain next i l := by
  induction n generalizing i with
  | zero => cases h
  | succ n ih =>
      cases hnext : next i with
      | none => exact ⟨[i], .last hnext⟩
      | some j =>
          rw [walk, hnext] at h
          obtain ⟨l, hl⟩ := ih h
          exact ⟨i :: l, .link hnext hl⟩

theorem chain_iff_acyclic [Finite ι] {i : ι} : (∃ l, Chain next i l) ↔ Acyclic next i := by
  constructor
  · rintro ⟨l, h⟩
    exact h.acyclic
  · intro h
    by_contra hnone
    have hwalk : ∀ n, ∃ j, walk next n i = some j := by
      intro n
      refine Option.ne_none_iff_exists'.mp fun hn => ?_
      exact hnone (chain_of_walk hn)
    choose object hobject using hwalk
    -- infinitely many rounds, finitely many objects
    obtain ⟨m, n, hne, hsame⟩ := Finite.exists_ne_map_eq_of_infinite object
    exact hne (h m n _ (hobject m) (hsame ▸ hobject n))

end Pointer
