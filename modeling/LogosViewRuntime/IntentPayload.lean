import LogosViewRuntime.IntentName
import LogosViewRuntime.Lib.Binary64
import LogosViewRuntime.Lib.Budget
import Mathlib.Algebra.GroupWithZero.Nat
import Mathlib.Algebra.Order.Group.Nat
import Mathlib.Algebra.Order.Monoid.Prod

/-! # Payloads of intents

`checkPayloadValue` walks through a value with one running budget and gives up at the first thing
that is wrong.  It accepts exactly the values that meet the rules taken one by one over the whole
tree (`isCanonicalValue_iff`). -/

namespace LogosViewRuntime.IntentRules

/-- A `QVariant` as far as the check looks into it.  The entries of a map are in the order of its
keys; no key is there twice, which nothing here depends on. -/
inductive QVariant where
  | invalid
  | bool (b : Bool)
  | int (n : Int32)
  | longLong (n : Int64)
  | double (d : Binary64)
  | string (s : QString)
  | list (elements : List QVariant)
  | map (entries : List (QString × QVariant))
  | other

structure PayloadBudget where
  nodes : ℕ := 0
  chars : ℕ := 0
deriving DecidableEq, Repr

def kMaxPayloadChars : ℕ := 4 * 1024 * 1024

/-- What a double has to be. -/
def isFinite (d : Binary64) : Bool :=
  d.eq d && d.lt Binary64.infinity && Binary64.infinity.neg.lt d

/-- What a `qlonglong` has to be. -/
def isExact (n : ℤ) : Bool := n ≤ 9007199254740991 && -9007199254740991 ≤ n

/-- The case of a string. -/
def checkString (s : QString) (budget : PayloadBudget) : Bool × PayloadBudget :=
  if 65536 < s.length then (false, budget)
  else
    let budget := { budget with chars := budget.chars + s.length }
    (budget.chars ≤ kMaxPayloadChars, budget)

mutual

def checkPayloadValue : QVariant → ℕ → PayloadBudget → Bool × PayloadBudget
  | v, depth, budget =>
      if 8 < depth then (false, budget)
      else
        let budget := { budget with nodes := budget.nodes + 1 }
        if 1000 < budget.nodes then (false, budget)
        else
          match v with
          | .invalid => (true, budget)
          | .bool _ => (true, budget)
          | .int n => (isExact n.toInt, budget)
          | .longLong n => (isExact n.toInt, budget)
          | .double d => (isFinite d, budget)
          | .string s => checkString s budget
          | .list elements => checkElements elements depth budget
          | .map entries => checkEntries entries depth budget
          | .other => (false, budget)

/-- The loop over a list. -/
def checkElements : List QVariant → ℕ → PayloadBudget → Bool × PayloadBudget
  | [], _, budget => (true, budget)
  | element :: elements, depth, budget =>
      let checked := checkPayloadValue element (depth + 1) budget
      if checked.1 then checkElements elements depth checked.2 else (false, checked.2)

/-- The loop over a map. -/
def checkEntries : List (QString × QVariant) → ℕ → PayloadBudget → Bool × PayloadBudget
  | [], _, budget => (true, budget)
  | (key, value) :: entries, depth, budget =>
      if 64 < key.length then (false, budget)
      else
        let budget := { budget with chars := budget.chars + key.length }
        if kMaxPayloadChars < budget.chars then (false, budget)
        else
          let checked := checkPayloadValue value (depth + 1) budget
          if checked.1 then checkEntries entries depth checked.2 else (false, checked.2)

end

def isCanonicalPayload (params : List (QString × QVariant)) : Bool :=
  (checkPayloadValue (.map params) 1 {}).1

def isCanonicalValue (value : QVariant) : Bool := (checkPayloadValue value 1 {}).1

/-! ### The rules -/

/-- What a payload is made of: its values, with the levels they lie at, and the keys of its maps. -/
inductive Item where
  | value (level : ℕ) (v : QVariant)
  | key (key : QString)

mutual

/-- The items of a value that lies at `level`. -/
def QVariant.items : QVariant → ℕ → List Item
  | .list elements, level => .value level (.list elements) :: elementItems elements (level + 1)
  | .map entries, level => .value level (.map entries) :: entryItems entries (level + 1)
  | v, level => [.value level v]

def elementItems : List QVariant → ℕ → List Item
  | [], _ => []
  | element :: elements, level => element.items level ++ elementItems elements level

def entryItems : List (QString × QVariant) → ℕ → List Item
  | [], _ => []
  | (key, value) :: entries, level => .key key :: (value.items level ++ entryItems entries level)

end

def Item.isValue : Item → Bool
  | .value _ _ => true
  | .key _ => false

/-- The UTF-16 units of a string or a key. -/
def Item.chars : Item → ℕ
  | .value _ (.string s) => s.length
  | .value _ _ => 0
  | .key k => k.length

/-- A container, or a value of one of the types that a payload may have. -/
def QVariant.IsAllowed : QVariant → Prop
  | .int n => -(2 ^ 53 - 1) ≤ n.toInt ∧ n.toInt ≤ 2 ^ 53 - 1
  | .longLong n => -(2 ^ 53 - 1) ≤ n.toInt ∧ n.toInt ≤ 2 ^ 53 - 1
  | .double d => d.IsFinite
  | .other => False
  | _ => True

/-- The payload rules. -/
structure Canonical (v : QVariant) : Prop where
  level : ∀ level w, .value level w ∈ v.items 1 → level ≤ 8
  nodes : ((v.items 1).filter Item.isValue).length ≤ 1000
  string : ∀ level s, .value level (.string s) ∈ v.items 1 → s.length ≤ 65536
  key : ∀ key, .key key ∈ v.items 1 → key.length ≤ 64
  chars : ((v.items 1).map Item.chars).sum ≤ 4 * 1024 * 1024
  allowed : ∀ level w, .value level w ∈ v.items 1 → w.IsAllowed

/-! ### One running budget -/

/-- Only a string has a length of its own. -/
def QVariant.IsShort : QVariant → Prop
  | .string s => s.length ≤ 65536
  | _ => True

def Item.Ok : Item → Prop
  | .value level v => level ≤ 8 ∧ v.IsAllowed ∧ v.IsShort
  | .key k => k.length ≤ 64

/-- The rules that the running budget is for. -/
def rules : Budget.Rules Item (ℕ × ℕ) PayloadBudget where
  ok := Item.Ok
  cost item := (if item.isValue then 1 else 0, item.chars)
  limit := (1000, kMaxPayloadChars)
  spent budget := (budget.nodes, budget.chars)

open Budget.Rules

theorem isExact_iff (n : ℤ) : isExact n = true ↔ -(2 ^ 53 - 1) ≤ n ∧ n ≤ 2 ^ 53 - 1 := by
  simp [isExact, and_comm]

variable {budget : PayloadBudget} {depth : ℕ} {v : QVariant} {items : List Item}

/-- Every value is looked at for its level and counted first. -/
theorem checks_enter {body : PayloadBudget → Bool × PayloadBudget}
    (h : depth ≤ 8 → budget.nodes + 1 ≤ 1000 → rules.Checks (rules.spent budget)
      (.value depth v :: items) (body { budget with nodes := budget.nodes + 1 })) :
    rules.Checks (rules.spent budget) (.value depth v :: items)
      (if 8 < depth then (false, budget)
      else
        let budget := { budget with nodes := budget.nodes + 1 }
        if 1000 < budget.nodes then (false, budget) else body budget) := by
  dsimp only
  split_ifs with hdepth hnodes
  · apply Checks.reject
    rintro ⟨⟨hlevel, -⟩, -⟩
    omega
  · apply Checks.reject
    rintro ⟨-, hle, -⟩
    have : budget.nodes + 1 ≤ 1000 := hle
    omega
  · exact h (by omega) (by omega)

/-- A value that is in order and has no length of its own, and what comes after it. -/
theorem checks_container {result : Bool × PayloadBudget} (hallowed : v.IsAllowed)
    (hshort : v.IsShort) (hchars : (Item.value depth v).chars = 0) (hdepth : depth ≤ 8)
    (hnodes : budget.nodes + 1 ≤ 1000) (hbudget : budget.chars ≤ kMaxPayloadChars)
    (h : rules.Checks (rules.spent { budget with nodes := budget.nodes + 1 }) items result) :
    rules.Checks (rules.spent budget) (.value depth v :: items) result := by
  have hcost : rules.spent budget + rules.cost (.value depth v) =
      rules.spent { budget with nodes := budget.nodes + 1 } := by
    simp [rules, Item.isValue, hchars]
  have hle : rules.spent { budget with nodes := budget.nodes + 1 } ≤ rules.limit :=
    ⟨hnodes, hbudget⟩
  have hok : rules.ok (.value depth v) := ⟨hdepth, hallowed, hshort⟩
  exact Checks.cons hok (hcost ▸ hle) (hcost ▸ h)

/-- A value that is neither a container nor a string. -/
theorem checks_leaf {b : Bool} (hb : b = true ↔ v.IsAllowed) (hshort : v.IsShort)
    (hchars : (Item.value depth v).chars = 0) (hdepth : depth ≤ 8) (hnodes : budget.nodes + 1 ≤ 1000)
    (hbudget : budget.chars ≤ kMaxPayloadChars) :
    rules.Checks (rules.spent budget) [.value depth v]
      (b, { budget with nodes := budget.nodes + 1 }) := by
  cases b with
  | false =>
      apply Checks.reject
      rintro ⟨⟨-, hallowed, -⟩, -⟩
      exact Bool.false_ne_true (hb.mpr hallowed)
  | true =>
      exact checks_container (hb.mp rfl) hshort hchars hdepth hnodes hbudget
        (Checks.nil ⟨hnodes, hbudget⟩ rfl)

theorem checks_string {s : QString} (hdepth : depth ≤ 8) (hnodes : budget.nodes + 1 ≤ 1000) :
    rules.Checks (rules.spent budget) [.value depth (.string s)]
      (checkString s { budget with nodes := budget.nodes + 1 }) := by
  unfold checkString
  dsimp only
  split_ifs with hlong
  · apply Checks.reject
    rintro ⟨⟨-, -, hshort⟩, -⟩
    have : s.length ≤ 65536 := hshort
    omega
  · have hok : rules.ok (.value depth (.string s)) := ⟨hdepth, trivial, Nat.not_lt.mp hlong⟩
    by_cases hchars : budget.chars + s.length ≤ kMaxPayloadChars
    · have hle : rules.spent ⟨budget.nodes + 1, budget.chars + s.length⟩ ≤ rules.limit :=
        ⟨hnodes, hchars⟩
      rw [decide_eq_true hchars]
      exact Checks.cons hok hle (Checks.nil hle rfl)
    · rw [decide_eq_false hchars]
      apply Checks.reject
      rintro ⟨-, -, hle⟩
      exact hchars hle

mutual

/-- The check goes through the items of a value. -/
theorem checks_value : ∀ (v : QVariant) (depth : ℕ) (budget : PayloadBudget),
    rules.spent budget ≤ rules.limit →
      rules.Checks (rules.spent budget) (v.items depth) (checkPayloadValue v depth budget)
  | .invalid, depth, budget, h => by
      rw [checkPayloadValue]
      refine checks_enter fun hdepth hnodes => ?_
      exact checks_leaf (iff_of_true rfl trivial) trivial rfl hdepth hnodes h.2
  | .bool b, depth, budget, h => by
      rw [checkPayloadValue]
      refine checks_enter fun hdepth hnodes => ?_
      exact checks_leaf (iff_of_true rfl trivial) trivial rfl hdepth hnodes h.2
  | .int n, depth, budget, h => by
      rw [checkPayloadValue]
      refine checks_enter fun hdepth hnodes => ?_
      exact checks_leaf (isExact_iff _) trivial rfl hdepth hnodes h.2
  | .longLong n, depth, budget, h => by
      rw [checkPayloadValue]
      refine checks_enter fun hdepth hnodes => ?_
      exact checks_leaf (isExact_iff _) trivial rfl hdepth hnodes h.2
  | .double d, depth, budget, h => by
      rw [checkPayloadValue]
      refine checks_enter fun hdepth hnodes => ?_
      exact checks_leaf Binary64.isFinite_iff trivial rfl hdepth hnodes h.2
  | .other, depth, budget, h => by
      rw [checkPayloadValue]
      refine checks_enter fun hdepth hnodes => ?_
      exact checks_leaf (iff_of_false Bool.false_ne_true id) trivial rfl hdepth hnodes h.2
  | .string s, depth, budget, h => by
      rw [checkPayloadValue]
      refine checks_enter fun hdepth hnodes => ?_
      exact checks_string hdepth hnodes
  | .list elements, depth, budget, h => by
      rw [checkPayloadValue]
      refine checks_enter fun hdepth hnodes => ?_
      exact checks_container trivial trivial rfl hdepth hnodes h.2
        (checks_elements elements depth _ ⟨hnodes, h.2⟩)
  | .map entries, depth, budget, h => by
      rw [checkPayloadValue]
      refine checks_enter fun hdepth hnodes => ?_
      exact checks_container trivial trivial rfl hdepth hnodes h.2
        (checks_entries entries depth _ ⟨hnodes, h.2⟩)

theorem checks_elements : ∀ (elements : List QVariant) (depth : ℕ) (budget : PayloadBudget),
    rules.spent budget ≤ rules.limit →
      rules.Checks (rules.spent budget) (elementItems elements (depth + 1))
        (checkElements elements depth budget)
  | [], depth, budget, h => Checks.nil h rfl
  | element :: elements, depth, budget, h => by
      rw [checkElements]
      refine (checks_value element (depth + 1) budget h).append fun hadmits hspent => ?_
      rw [← hspent]
      have hle := hadmits.le
      rw [← hspent] at hle
      exact checks_elements elements depth _ hle

theorem checks_entries : ∀ (entries : List (QString × QVariant)) (depth : ℕ)
    (budget : PayloadBudget), rules.spent budget ≤ rules.limit →
      rules.Checks (rules.spent budget) (entryItems entries (depth + 1))
        (checkEntries entries depth budget)
  | [], depth, budget, h => Checks.nil h rfl
  | (key, value) :: entries, depth, budget, h => by
      rw [checkEntries]
      dsimp only
      by_cases hlong : 64 < key.length
      · rw [if_pos hlong]
        exact Checks.reject fun hkey => absurd hkey.1 (Nat.not_le.mpr hlong)
      · rw [if_neg hlong]
        by_cases hchars : kMaxPayloadChars < budget.chars + key.length
        · rw [if_pos hchars]
          exact Checks.reject fun hkey => absurd hkey.2.2 (Nat.not_le.mpr hchars)
        · rw [if_neg hchars]
          -- the key is paid before its value is looked at
          have hpaid : rules.spent ⟨budget.nodes, budget.chars + key.length⟩ ≤ rules.limit :=
            ⟨h.1, Nat.not_lt.mp hchars⟩
          refine Checks.cons (Nat.not_lt.mp hlong) hpaid ?_
          refine (checks_value value (depth + 1) _ hpaid).append fun hadmits hspent => ?_
          rw [← hspent]
          have hle := hadmits.le
          rw [← hspent] at hle
          exact checks_entries entries depth _ hle

end

/-! ### The whole tree -/

theorem total_eq (items : List Item) : rules.total items =
    ((items.filter Item.isValue).length, (items.map Item.chars).sum) := by
  induction items with
  | nil => rfl
  | cons item items ih =>
      rw [total_cons, ih]
      cases item <;> simp [rules, Item.isValue, List.filter_cons, Prod.mk_add_mk, Nat.add_comm]

/-- The budget's rules over the items of a value are the payload rules. -/
theorem admits_iff_canonical (v : QVariant) : rules.Admits (0, 0) (v.items 1) ↔ Canonical v := by
  constructor
  · rintro ⟨hok, hle⟩
    rw [total_eq] at hle
    have hvalue : ∀ level w, .value level w ∈ v.items 1 → level ≤ 8 ∧ w.IsAllowed ∧ w.IsShort :=
      fun level w hw => hok _ hw
    refine ⟨fun level w hw => (hvalue level w hw).1, ?_, fun level s hs => (hvalue level _ hs).2.2,
      fun key hkey => hok _ hkey, ?_, fun level w hw => (hvalue level w hw).2.1⟩
    · simpa [rules] using hle.1
    · simpa [rules, kMaxPayloadChars] using hle.2
  · intro h
    refine ⟨fun item hitem => ?_, ?_⟩
    · cases item with
      | key key => exact h.key key hitem
      | value level w =>
          refine ⟨h.level level w hitem, h.allowed level w hitem, ?_⟩
          cases w with
          | string s => exact h.string level s hitem
          | _ => trivial
    · rw [total_eq]
      refine ⟨?_, ?_⟩
      · simpa [rules] using h.nodes
      · simpa [rules, kMaxPayloadChars] using h.chars

/-- **The payload check** accepts exactly the values, and of maps exactly the payloads, that meet
the rules. -/
theorem isCanonicalValue_iff (v : QVariant) (params : List (QString × QVariant)) :
    (isCanonicalValue v = true ↔ Canonical v) ∧
      (isCanonicalPayload params = true ↔ Canonical (.map params)) := by
  have h : ∀ v, (checkPayloadValue v 1 {}).1 = true ↔ Canonical v := by
    intro v
    rw [← admits_iff_canonical]
    exact (checks_value v 1 {} ⟨Nat.zero_le _, Nat.zero_le _⟩).iff
  exact ⟨h v, h (.map params)⟩

/-- An absent value, a subnormal and the largest exact integer eight levels down; one level more,
and an infinity. -/
example : isCanonicalPayload [([107], .invalid), ([108], .list [.double ⟨true, 0, 1⟩]),
      ([109], .list [.list [.list [.list [.list [.list [.longLong 9007199254740991]]]]]])] = true ∧
    isCanonicalValue (.list [.list [.list [.list [.list [.list [.list [.list []]]]]]]]) = true ∧
    isCanonicalValue (.list [.list [.list [.list [.list [.list [.list [.list [.invalid]]]]]]]]) =
      false ∧
    isCanonicalValue (.double Binary64.infinity) = false := by decide

end LogosViewRuntime.IntentRules
