import Mathlib.Data.List.AList

/-! # Stock

What is kept under keys in an association list, and in lists that are themselves in a list,
counted piece by piece. -/

namespace Reactive.Stock

variable {κ β γ : Type*} [DecidableEq κ]

/-- What is kept, under whatever key. -/
def values (m : AList fun _ : κ => β) : List β := m.entries.map (·.2)

theorem mem_values {m : AList fun _ : κ => β} {b : β} :
    b ∈ values m ↔ ∃ k, m.lookup k = some b := by
  constructor
  · intro hb
    obtain ⟨⟨k, b⟩, hentry, rfl⟩ := List.mem_map.mp hb
    exact ⟨k, AList.mem_lookup_iff.mpr hentry⟩
  · rintro ⟨k, hk⟩
    exact List.mem_map.mpr ⟨⟨k, b⟩, AList.mem_lookup_iff.mp hk, rfl⟩

theorem erase_of_lookup_none {m : AList fun _ : κ => β} {k : κ} (hk : m.lookup k = none) :
    m.erase k = m := by
  apply AList.ext
  apply List.kerase_of_notMem_keys
  exact AList.lookup_eq_none.mp hk

variable [BEq β]

/-- A key that is erased takes its one piece with it. -/
theorem count_values_erase [LawfulBEq β] {m : AList fun _ : κ => β} {k : κ} {b : β}
    (hk : m.lookup k = some b) (x : β) : (values m).count x = (values (m.erase k)).count x + [b].count x := by
  have hmem : k ∈ m.entries.keys := AList.lookup_isSome.mp (by rw [hk]; rfl)
  obtain ⟨b', before, after, hnot, hentries, herase⟩ := List.exists_of_kerase hmem
  obtain rfl : b' = b := by
    have hentry : (⟨k, b'⟩ : Sigma fun _ : κ => β) ∈ m.entries := by simp [hentries]
    exact Option.some.inj ((AList.mem_lookup_iff.mpr hentry).symm.trans hk)
  have hvalues : values (m.erase k) = (before ++ after).map (·.2) := congrArg _ herase
  rw [hvalues, values, hentries]
  simp only [List.map_append, List.map_cons, List.count_append, List.count_cons]
  simp only [List.count_nil]
  omega

/-- A piece takes the place of the one that was kept under its key. -/
theorem count_values_insert (m : AList fun _ : κ => β) (k : κ) (b x : β) :
    (values (m.insert k b)).count x = (values (m.erase k)).count x + [b].count x := by
  have hvalues : values (m.insert k b) = b :: values (m.erase k) := by
    rw [values, AList.entries_insert]
    rfl
  rw [hvalues, ← List.singleton_append, List.count_append, Nat.add_comm]

/-- One of the lists is exchanged. -/
theorem count_flatMap_set (f : γ → List β) {l : List γ} {i : ℕ} {y : γ} (hi : l[i]? = some y)
    (y' : γ) (x : β) :
    ((l.set i y').flatMap f).count x + (f y).count x = (l.flatMap f).count x + (f y').count x := by
  induction l generalizing i with
  | nil => cases hi
  | cons z l ih =>
      cases i with
      | zero =>
          obtain rfl := Option.some.inj hi
          simp only [List.set_cons_zero, List.flatMap_cons, List.count_append]
          omega
      | succ i =>
          have := ih hi
          simp only [List.set_cons_succ, List.flatMap_cons, List.count_append]
          omega

end Reactive.Stock
