import Mathlib.Data.Int.Basic
import Mathlib.Algebra.Group.Nat.Defs

/-! # IEEE 754 doubles

A double by its fields, with the number it stands for and the comparisons of the standard: every
comparison with a NaN is false.  Numbers are counted in units of the smallest positive double, in
which every finite double is an integer. -/

/-- Sign, biased exponent and fraction. -/
structure Binary64 where
  sign : Bool
  exponent : BitVec 11
  fraction : BitVec 52
deriving DecidableEq, Repr

namespace Binary64

def infinity : Binary64 := ⟨false, BitVec.allOnes 11, 0⟩

def neg (d : Binary64) : Binary64 := { d with sign := !d.sign }

def IsNaN (d : Binary64) : Prop := d.exponent = BitVec.allOnes 11 ∧ d.fraction ≠ 0

instance (d : Binary64) : Decidable d.IsNaN := inferInstanceAs (Decidable (_ ∧ _))

/-- Neither an infinity nor a NaN. -/
def IsFinite (d : Binary64) : Prop := d.exponent ≠ BitVec.allOnes 11

instance (d : Binary64) : Decidable d.IsFinite := inferInstanceAs (Decidable (_ ≠ _))

/-- A subnormal has the exponent of the smallest normal and no leading one. -/
def magnitude (d : Binary64) : ℕ :=
  if d.exponent = 0 then d.fraction.toNat
  else (2 ^ 52 + d.fraction.toNat) * 2 ^ (d.exponent.toNat - 1)

/-- What a double that is no NaN stands for. -/
inductive Value where
  | negInfinity
  | finite (n : ℤ)
  | infinity
deriving DecidableEq, Repr

def Value.lt : Value → Value → Bool
  | .negInfinity, .negInfinity => false
  | .negInfinity, _ => true
  | .finite n, .finite n' => n < n'
  | .finite _, .infinity => true
  | _, _ => false

def value (d : Binary64) : Value :=
  if d.IsFinite then .finite (if d.sign then -(d.magnitude : ℤ) else d.magnitude)
  else if d.sign then .negInfinity else .infinity

/-- `==` -/
def eq (d d' : Binary64) : Bool := !d.IsNaN && !d'.IsNaN && d.value = d'.value

/-- `<` -/
def lt (d d' : Binary64) : Bool := !d.IsNaN && !d'.IsNaN && d.value.lt d'.value

variable {d d' : Binary64}

theorem eq_iff : d.eq d' = true ↔ ¬ d.IsNaN ∧ ¬ d'.IsNaN ∧ d.value = d'.value := by
  simp [eq, and_assoc]

theorem lt_iff : d.lt d' = true ↔ ¬ d.IsNaN ∧ ¬ d'.IsNaN ∧ d.value.lt d'.value = true := by
  simp [lt, and_assoc]

theorem value_of_isFinite (h : d.IsFinite) : ∃ n, d.value = .finite n := by
  rw [value, if_pos h]
  exact ⟨_, rfl⟩

/-- What is not finite and no NaN is one of the infinities. -/
theorem value_of_not_isFinite (h : ¬ d.IsFinite) :
    d.value = infinity.value ∨ d.value = infinity.neg.value := by
  rw [value, if_neg h]
  cases d.sign
  · exact .inl rfl
  · exact .inr rfl

/-- The finite doubles are those that equal themselves and are between the infinities. -/
theorem isFinite_iff : (d.eq d && d.lt infinity && infinity.neg.lt d) = true ↔ d.IsFinite := by
  have hinfinity : ¬ infinity.IsNaN := by decide
  have hneg : ¬ infinity.neg.IsNaN := by decide
  rw [Bool.and_eq_true, Bool.and_eq_true, eq_iff, lt_iff, lt_iff]
  constructor
  · rintro ⟨⟨-, -, -, hlt⟩, -, -, hgt⟩
    by_contra hfinite
    obtain he | he := value_of_not_isFinite hfinite
    · rw [he] at hlt
      cases hlt
    · rw [he] at hgt
      cases hgt
  · intro hfinite
    have hnan : ¬ d.IsNaN := fun hnan => hfinite hnan.1
    obtain ⟨n, hn⟩ := value_of_isFinite hfinite
    rw [hn]
    exact ⟨⟨⟨hnan, hnan, rfl⟩, hnan, hinfinity, rfl⟩, hneg, hnan, rfl⟩

end Binary64
