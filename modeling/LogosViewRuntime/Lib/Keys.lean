import Mathlib.Data.List.Basic

/-! # Two names in one key

`join` puts two names into one key with a separator between them.  Keys of names without the
separator can be taken apart again (`join_eq_iff`); every other key is that of another first name
as well (`exists_other`).  The keys with a first name's prefix are those that some second name
makes with it (`prefix_iff`). -/

namespace Keys

variable {α : Type*} {sep : α} {a b c d : List α}

def join (sep : α) (a b : List α) : List α := a ++ sep :: b

/-- The separator is in neither name. -/
def Simple (sep : α) (a b : List α) : Prop := sep ∉ a ∧ sep ∉ b

theorem join_eq_iff (h : Simple sep a b) : join sep a b = join sep c d ↔ a = c ∧ b = d := by
  constructor
  · intro he
    obtain ⟨l, hl, hr⟩ | ⟨l, hl, hr⟩ := List.append_eq_append_iff.mp he
    · cases l with
      | nil => exact ⟨by simpa using hl.symm, (List.cons.inj hr).2⟩
      | cons s l =>
          have hb : b = l ++ sep :: d := (List.cons.inj hr).2
          exact absurd (by simp [hb]) h.2
    · cases l with
      | nil => exact ⟨by simpa using hl, (List.cons.inj hr).2.symm⟩
      | cons s l =>
          obtain rfl : sep = s := (List.cons.inj hr).1
          exact absurd (by simp [hl]) h.1
  · rintro ⟨rfl, rfl⟩
    rfl

theorem exists_other (h : ¬ Simple sep a b) : ∃ c d, c ≠ a ∧ join sep a b = join sep c d := by
  by_cases ha : sep ∈ a
  · obtain ⟨l, r, rfl⟩ := List.append_of_mem ha
    exact ⟨l, r ++ sep :: b, by simp, by simp [join]⟩
  · have hb : sep ∈ b := by
      by_contra hb
      exact h ⟨ha, hb⟩
    obtain ⟨l, r, rfl⟩ := List.append_of_mem hb
    exact ⟨a ++ sep :: l, r, by simp, by simp [join]⟩

theorem prefix_iff : c ++ [sep] <+: join sep a b ↔ ∃ d, join sep a b = join sep c d := by
  constructor
  · rintro ⟨d, hd⟩
    exact ⟨d, by rw [← hd, join, List.append_assoc, List.singleton_append]⟩
  · rintro ⟨d, hd⟩
    exact ⟨d, by rw [hd, join, List.append_assoc, List.singleton_append]⟩

end Keys
