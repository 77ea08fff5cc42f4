import Mathlib.Computability.Language

/-! # Words of letters and separators

Languages that are read letter by letter.  `letter p` has the words of one letter that meets `p`;
`l * (letter (· = a) * l) ^ k` has the words of `k + 1` words of `l` with `a` in between.  When no
word of `l` has an `a` in it, such a word falls apart in one way, at its `a`s. -/

namespace Words

open scoped Computability

variable {α : Type*} {l : Language α} {p : α → Prop} {a : α}

/-- The words of one letter that meets `p`. -/
def letter (p : α → Prop) : Language α := {w | ∃ a, p a ∧ w = [a]}

/-- The words of `m` to `n` words of `l`. -/
def times (m n : ℕ) (l : Language α) : Language α := {w | ∃ k, m ≤ k ∧ k ≤ n ∧ w ∈ l ^ k}

/-- The words of `l` after a letter that meets `p`. -/
@[simp] theorem cons_mem_letter_mul {w : List α} : a :: w ∈ letter p * l ↔ p a ∧ w ∈ l := by
  rw [Language.mem_mul]
  constructor
  · rintro ⟨_, ⟨b, hb, rfl⟩, v, hv, he⟩
    obtain ⟨rfl, rfl⟩ := List.cons.inj he
    exact ⟨hb, hv⟩
  · rintro ⟨ha, hw⟩
    exact ⟨[a], ⟨a, ha, rfl⟩, w, hw, rfl⟩

@[simp] theorem nil_notMem_letter_mul : [] ∉ letter p * l := by
  rw [Language.mem_mul]
  rintro ⟨_, ⟨b, -, rfl⟩, v, -, he⟩
  cases he

/-! ### Separators -/

/-- A word of `k + 1` words of `l` with separators in between. -/
theorem mem_mul_separated_pow {w : List α} {k : ℕ} : w ∈ l * (letter (· = a) * l) ^ k ↔
    ∃ ws : List (List α), ws.length = k + 1 ∧ (∀ v ∈ ws, v ∈ l) ∧ [a].intercalate ws = w := by
  induction k generalizing w with
  | zero =>
      rw [pow_zero, mul_one]
      constructor
      · intro hw
        exact ⟨[w], rfl, by simpa using hw, by simp⟩
      · rintro ⟨ws, hlength, hws, rfl⟩
        obtain ⟨v, rfl⟩ := List.length_eq_one_iff.mp hlength
        simpa using hws
  | succ k ih =>
      rw [pow_succ', mul_assoc, Language.mem_mul]
      constructor
      · rintro ⟨v, hv, w', hw', rfl⟩
        cases w' with
        | nil => exact absurd hw' nil_notMem_letter_mul
        | cons b w' =>
            obtain ⟨rfl, hw'⟩ := cons_mem_letter_mul.mp hw'
            obtain ⟨ws, hlength, hws, rfl⟩ := ih.mp hw'
            refine ⟨v :: ws, by rw [List.length_cons, hlength], ?_, ?_⟩
            · exact List.forall_mem_cons.mpr ⟨hv, hws⟩
            · have hne : ws ≠ [] := List.ne_nil_of_length_eq_add_one hlength
              rw [List.intercalate_cons_of_ne_nil hne]
              simp
      · rintro ⟨ws, hlength, hws, rfl⟩
        cases ws with
        | nil => cases hlength
        | cons v ws =>
            have hlength : ws.length = k + 1 := Nat.succ.inj hlength
            have hne : ws ≠ [] := List.ne_nil_of_length_eq_add_one hlength
            obtain ⟨hv, hws⟩ := List.forall_mem_cons.mp hws
            refine ⟨v, hv, a :: [a].intercalate ws, ?_, ?_⟩
            · exact cons_mem_letter_mul.mpr ⟨rfl, ih.mpr ⟨ws, hlength, hws, rfl⟩⟩
            · rw [List.intercalate_cons_of_ne_nil hne]
              simp

/-- Up to the first separator there is one word. -/
theorem append_singleton_prefix {v w t : List α} (hv : a ∉ v) (hw : a ∉ w) :
    v ++ [a] <+: w ++ a :: t ↔ v = w := by
  induction v generalizing w with
  | nil =>
      cases w with
      | nil => simp
      | cons b w => simpa using fun he : a = b => hw (he ▸ List.mem_cons_self)
  | cons b v ih =>
      cases w with
      | nil => simpa using fun he : b = a => absurd (he ▸ List.mem_cons_self) hv
      | cons c w =>
          have htail := ih (fun h => hv (List.mem_cons_of_mem b h)) fun h =>
            hw (List.mem_cons_of_mem c h)
          rw [List.cons_append, List.cons_append, List.cons_prefix_cons, htail, List.cons.injEq]

variable [DecidableEq α]

/-- Words without the separator are the parts of what they are joined to. -/
theorem intercalate_eq_iff {ws : List (List α)} {w : List α} (hne : ws ≠ [])
    (hws : ∀ v ∈ ws, a ∉ v) : [a].intercalate ws = w ↔ ws = w.splitOn a := by
  constructor
  · rintro rfl
    exact (List.splitOn_intercalate a hws hne).symm
  · rintro rfl
    exact List.intercalate_splitOn a

/-- A word of `m + 1` to `n + 1` words of `l` with separators in between is split into them. -/
theorem mem_separated_iff_splitOn {m n : ℕ} (hl : ∀ v ∈ l, a ∉ v) {w : List α} :
    w ∈ l * times m n (letter (· = a) * l) ↔
      (m + 1 ≤ (w.splitOn a).length ∧ (w.splitOn a).length ≤ n + 1) ∧ ∀ v ∈ w.splitOn a, v ∈ l := by
  constructor
  · rintro ⟨u, hu, v, ⟨k, hmk, hkn, hv⟩, he⟩
    have hw : w ∈ l * (letter (· = a) * l) ^ k := ⟨u, hu, v, hv, he⟩
    obtain ⟨ws, hlength, hws, hjoin⟩ := mem_mul_separated_pow.mp hw
    have hne : ws ≠ [] := List.ne_nil_of_length_eq_add_one hlength
    obtain rfl := (intercalate_eq_iff hne fun v hv => hl v (hws v hv)).mp hjoin
    refine ⟨⟨?_, ?_⟩, hws⟩
    · omega
    · omega
  · rintro ⟨⟨hm, hn⟩, hws⟩
    have hlength : (w.splitOn a).length = ((w.splitOn a).length - 1) + 1 := by omega
    obtain ⟨u, hu, v, hv, he⟩ :=
      mem_mul_separated_pow.mpr ⟨w.splitOn a, hlength, hws, List.intercalate_splitOn a⟩
    exact ⟨u, hu, v, ⟨_, by omega, by omega, hv⟩, he⟩

end Words
