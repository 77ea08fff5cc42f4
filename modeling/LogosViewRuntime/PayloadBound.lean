import LogosViewRuntime.IntentPayload
import LogosViewRuntime.Lib.Traced

/-! # The payload check is bounded

`checkPayloadValue` again, with every entry, every round of a loop and every count in view
(`checkPayloadValueM_val`).  A node is counted before the count is looked at and every loop ends
with the first value that is refused, so the check never gets further than one node past its limit,
whatever it is given and whatever it answers (`check_is_bounded`). -/

namespace LogosViewRuntime.IntentRules

open Traced

/-! ### The check with its events -/

inductive Event where
  | entered (depth : ℕ)
  | round
  | counted (budget : PayloadBudget)
deriving DecidableEq, Repr

def checkStringM (s : QString) (budget : PayloadBudget) : Traced Event (Bool × PayloadBudget) :=
  if 65536 < s.length then pure (false, budget)
  else do
    let budget := { budget with chars := budget.chars + s.length }
    emit (.counted budget)
    pure (budget.chars ≤ kMaxPayloadChars, budget)

mutual

def checkPayloadValueM : QVariant → ℕ → PayloadBudget → Traced Event (Bool × PayloadBudget)
  | v, depth, budget => do
      emit (.entered depth)
      if 8 < depth then pure (false, budget)
      else
        let budget := { budget with nodes := budget.nodes + 1 }
        emit (.counted budget)
        if 1000 < budget.nodes then pure (false, budget)
        else
          match v with
          | .invalid => pure (true, budget)
          | .bool _ => pure (true, budget)
          | .int n => pure (isExact n.toInt, budget)
          | .longLong n => pure (isExact n.toInt, budget)
          | .double d => pure (isFinite d, budget)
          | .string s => checkStringM s budget
          | .list elements => checkElementsM elements depth budget
          | .map entries => checkEntriesM entries depth budget
          | .other => pure (false, budget)

def checkElementsM : List QVariant → ℕ → PayloadBudget → Traced Event (Bool × PayloadBudget)
  | [], _, budget => pure (true, budget)
  | element :: elements, depth, budget => do
      emit .round
      let checked ← checkPayloadValueM element (depth + 1) budget
      if checked.1 then checkElementsM elements depth checked.2 else pure (false, checked.2)

def checkEntriesM : List (QString × QVariant) → ℕ → PayloadBudget →
    Traced Event (Bool × PayloadBudget)
  | [], _, budget => pure (true, budget)
  | (key, value) :: entries, depth, budget => do
      emit .round
      if 64 < key.length then pure (false, budget)
      else
        let budget := { budget with chars := budget.chars + key.length }
        emit (.counted budget)
        if kMaxPayloadChars < budget.chars then pure (false, budget)
        else
          let checked ← checkPayloadValueM value (depth + 1) budget
          if checked.1 then checkEntriesM entries depth checked.2 else pure (false, checked.2)

end

/-- The run of `isCanonicalValue`. -/
def isCanonicalValueM (value : QVariant) : Traced Event Bool := do
  let checked ← checkPayloadValueM value 1 {}
  pure checked.1

theorem checkStringM_val (s : QString) (budget : PayloadBudget) :
    (checkStringM s budget).val = checkString s budget := by
  unfold checkStringM checkString
  split_ifs <;> rfl

mutual

theorem checkPayloadValueM_val : ∀ (v : QVariant) (depth : ℕ) (budget : PayloadBudget),
    (checkPayloadValueM v depth budget).val = checkPayloadValue v depth budget
  | v, depth, budget => by
      rw [checkPayloadValueM, checkPayloadValue, bind_val]
      dsimp only
      split_ifs with hdepth hnodes
      · rfl
      · rfl
      · rw [bind_val]
        cases v with
        | string s => exact checkStringM_val s _
        | list elements => exact checkElementsM_val elements depth _
        | map entries => exact checkEntriesM_val entries depth _
        | _ => rfl

theorem checkElementsM_val : ∀ (elements : List QVariant) (depth : ℕ) (budget : PayloadBudget),
    (checkElementsM elements depth budget).val = checkElements elements depth budget
  | [], depth, budget => rfl
  | element :: elements, depth, budget => by
      rw [checkElementsM, checkElements, bind_val, bind_val, checkPayloadValueM_val element]
      split_ifs
      · exact checkElementsM_val elements depth _
      · rfl

theorem checkEntriesM_val : ∀ (entries : List (QString × QVariant)) (depth : ℕ)
    (budget : PayloadBudget),
    (checkEntriesM entries depth budget).val = checkEntries entries depth budget
  | [], depth, budget => rfl
  | (key, value) :: entries, depth, budget => by
      rw [checkEntriesM, checkEntries, bind_val]
      dsimp only
      split_ifs with hlong hchars haccepted
      · rfl
      · rfl
      · rw [bind_val, bind_val, checkPayloadValueM_val value, if_pos haccepted]
        exact checkEntriesM_val entries depth _
      · rw [bind_val, bind_val, checkPayloadValueM_val value, if_neg haccepted]
        rfl

end

/-! ### The bounds -/

def Event.isEntry : Event → Bool
  | .entered _ => true
  | _ => false

def Event.isRound : Event → Bool
  | .round => true
  | _ => false

/-- What an event may show: no level below the ninth, and counters that fit. -/
def Event.Within : Event → Prop
  | .entered depth => depth ≤ 9
  | .round => True
  | .counted budget => budget.nodes ≤ 1001 ∧ budget.chars ≤ 4 * 1024 * 1024 + 65536

/-- What is spent when a check may go on. -/
def PayloadBudget.Left (budget : PayloadBudget) : Prop :=
  budget.nodes ≤ 1000 ∧ budget.chars ≤ kMaxPayloadChars

def entries (run : Traced Event (Bool × PayloadBudget)) : ℕ := run.trace.countP Event.isEntry

def rounds (run : Traced Event (Bool × PayloadBudget)) : ℕ := run.trace.countP Event.isRound

/-- A part of the check that begins with `budget` and is itself entered `own` times: while it goes
on, each entry is a node, and a refusal leaves at most one entry that is not paid for.  Every round
but a last one that is refused has an entry of its own. -/
structure Bounded (own : ℕ) (budget : PayloadBudget) (run : Traced Event (Bool × PayloadBudget)) :
    Prop where
  within : ∀ e ∈ run.trace, e.Within
  accepted : run.val.1 = true → run.val.2.Left ∧ entries run + budget.nodes = run.val.2.nodes ∧
    rounds run + own ≤ entries run
  rejected : run.val.1 = false → entries run + budget.nodes ≤ 1001 ∧
    rounds run + own ≤ entries run + 1

variable {own depth : ℕ} {budget budget' : PayloadBudget}
  {run : Traced Event (Bool × PayloadBudget)}

theorem Bounded.refused (hnodes : budget.nodes ≤ 1001) (hown : own ≤ 1) (budget' : PayloadBudget) :
    Bounded own budget (pure (false, budget')) := by
  refine ⟨by simp, by simp, fun _ => ?_⟩
  simp only [entries, rounds, pure_trace, List.countP_nil]
  omega

theorem Bounded.allowed (hleft : budget.Left) : Bounded 0 budget (pure (true, budget)) := by
  refine ⟨by simp, fun _ => ⟨hleft, ?_⟩, by simp⟩
  simp [entries, rounds]

/-- A value that neither has a length nor is a container. -/
theorem Bounded.leaf (hleft : budget.Left) (b : Bool) : Bounded 0 budget (pure (b, budget)) := by
  cases b with
  | true => exact .allowed hleft
  | false => exact .refused (by have := hleft.1; omega) (Nat.zero_le 1) budget

theorem entries_bind {α : Type} (x : Traced Event α)
    (f : α → Traced Event (Bool × PayloadBudget)) :
    entries (x >>= f) = x.trace.countP Event.isEntry + entries (f x.val) :=
  countP_bind ..

theorem rounds_bind {α : Type} (x : Traced Event α)
    (f : α → Traced Event (Bool × PayloadBudget)) :
    rounds (x >>= f) = x.trace.countP Event.isRound + rounds (f x.val) :=
  countP_bind ..

/-- An event that comes before the rest of a part. -/
theorem Bounded.emit {e : Event} {own' : ℕ} (hwithin : e.Within) (h : Bounded own budget' run)
    (hentry : budget'.nodes = budget.nodes + [e].countP Event.isEntry)
    (hround : [e].countP Event.isRound + own' = [e].countP Event.isEntry + own) :
    Bounded own' budget (Traced.emit e >>= fun _ => run) := by
  refine ⟨forall_mem_bind.mpr ⟨by simpa using hwithin, h.within⟩, fun hval => ?_, fun hval => ?_⟩
  · obtain ⟨hleft, hnodes, hrounds⟩ := h.accepted hval
    rw [entries_bind, rounds_bind, emit_trace, bind_val]
    exact ⟨hleft, by omega, by omega⟩
  · obtain ⟨hnodes, hrounds⟩ := h.rejected hval
    rw [entries_bind, rounds_bind, emit_trace]
    exact ⟨by omega, by omega⟩

/-- A value pays for its entry with a node. -/
theorem Bounded.entered (hdepth : depth ≤ 9)
    (h : Bounded 0 { budget with nodes := budget.nodes + 1 } run) :
    Bounded 1 budget (Traced.emit (.entered depth) >>= fun _ => run) :=
  .emit hdepth h rfl rfl

theorem Bounded.round (h : Bounded 1 budget run) :
    Bounded 0 budget (Traced.emit .round >>= fun _ => run) :=
  .emit trivial h rfl rfl

theorem Bounded.counted (hsame : budget'.nodes = budget.nodes) (hnodes : budget'.nodes ≤ 1001)
    (hchars : budget'.chars ≤ 4 * 1024 * 1024 + 65536) (h : Bounded own budget' run) :
    Bounded own budget (Traced.emit (.counted budget') >>= fun _ => run) :=
  .emit ⟨hnodes, hchars⟩ h hsame rfl

/-- One part, and if it accepts another. -/
theorem Bounded.andThen {next : PayloadBudget → Traced Event (Bool × PayloadBudget)}
    (h : Bounded own budget run)
    (hnext : ∀ budget', budget'.Left → Bounded 0 budget' (next budget')) :
    Bounded own budget (run >>= fun checked =>
      if checked.1 then next checked.2 else pure (false, checked.2)) := by
  cases hfirst : run.val.1 with
  | false =>
      -- the rest is not looked at
      have hstop : (if run.val.1 then next run.val.2 else pure (false, run.val.2)) =
          pure (false, run.val.2) := if_neg (by simp [hfirst])
      obtain ⟨hnodes, hown⟩ := h.rejected hfirst
      refine ⟨forall_mem_bind.mpr ⟨h.within, ?_⟩, fun hval => ?_, fun _ => ?_⟩
      · rw [hstop]
        exact List.forall_mem_nil _
      · rw [bind_val, hstop] at hval
        cases hval
      · rw [entries_bind, rounds_bind, hstop]
        exact ⟨hnodes, hown⟩
  | true =>
      have hgo : (if run.val.1 then next run.val.2 else pure (false, run.val.2)) =
          next run.val.2 := if_pos hfirst
      obtain ⟨hleft, hnodes, hown⟩ := h.accepted hfirst
      have hrest := hnext _ hleft
      refine ⟨forall_mem_bind.mpr ⟨h.within, ?_⟩, fun hval => ?_, fun hval => ?_⟩
      · rw [hgo]
        exact hrest.within
      · rw [bind_val, hgo] at hval ⊢
        obtain ⟨hleft', hnodes', hown'⟩ := hrest.accepted hval
        rw [entries_bind, rounds_bind, hgo]
        rw [entries] at hnodes hown
        rw [rounds] at hown
        exact ⟨hleft', by omega, by omega⟩
      · rw [bind_val, hgo] at hval
        obtain ⟨hnodes', hown'⟩ := hrest.rejected hval
        rw [entries_bind, rounds_bind, hgo]
        rw [entries] at hnodes hown
        rw [rounds] at hown
        exact ⟨by omega, by omega⟩

theorem bounded_string (s : QString) (hleft : budget.Left) :
    Bounded 0 budget (checkStringM s budget) := by
  obtain ⟨hnodes, hchars⟩ := hleft
  have hmax : kMaxPayloadChars = 4 * 1024 * 1024 := rfl
  unfold checkStringM
  split_ifs with hlong
  · exact .refused (by omega) (Nat.zero_le 1) budget
  · refine .counted rfl (by dsimp only; omega) (by dsimp only; omega) ?_
    by_cases hle : budget.chars + s.length ≤ kMaxPayloadChars
    · rw [decide_eq_true hle]
      exact .allowed ⟨hnodes, hle⟩
    · rw [decide_eq_false hle]
      exact .refused (by dsimp only; omega) (Nat.zero_le 1) _

mutual

theorem bounded_value : ∀ (v : QVariant) (depth : ℕ) (budget : PayloadBudget),
    depth ≤ 9 → budget.Left → Bounded 1 budget (checkPayloadValueM v depth budget)
  | v, depth, budget, hdepth, hleft => by
      obtain ⟨hnodes, hchars⟩ := hleft
      have hmax : kMaxPayloadChars = 4 * 1024 * 1024 := rfl
      rw [checkPayloadValueM]
      refine .entered hdepth ?_
      dsimp only
      split_ifs with hdeep hmany
      · exact .refused (by dsimp only; omega) (Nat.zero_le 1) budget
      · exact .counted rfl (by dsimp only; omega) (by dsimp only; omega)
          (.refused (by dsimp only; omega) (Nat.zero_le 1) _)
      · have hleft : PayloadBudget.Left { budget with nodes := budget.nodes + 1 } :=
          ⟨Nat.not_lt.mp hmany, hchars⟩
        refine .counted rfl (by dsimp only; omega) (by dsimp only; omega) ?_
        cases v with
        | string s => exact bounded_string s hleft
        | list elements => exact bounded_elements elements depth _ (by omega) hleft
        | map entries => exact bounded_entries entries depth _ (by omega) hleft
        | _ => exact .leaf hleft _

theorem bounded_elements : ∀ (elements : List QVariant) (depth : ℕ) (budget : PayloadBudget),
    depth ≤ 8 → budget.Left → Bounded 0 budget (checkElementsM elements depth budget)
  | [], depth, budget, hdepth, hleft => .allowed hleft
  | element :: elements, depth, budget, hdepth, hleft => by
      rw [checkElementsM]
      refine .round ((bounded_value element (depth + 1) budget (by omega) hleft).andThen ?_)
      exact fun budget' hleft' => bounded_elements elements depth budget' hdepth hleft'

theorem bounded_entries : ∀ (entries : List (QString × QVariant)) (depth : ℕ)
    (budget : PayloadBudget),
    depth ≤ 8 → budget.Left → Bounded 0 budget (checkEntriesM entries depth budget)
  | [], depth, budget, hdepth, hleft => .allowed hleft
  | (key, value) :: entries, depth, budget, hdepth, hleft => by
      obtain ⟨hnodes, hchars⟩ := hleft
      have hmax : kMaxPayloadChars = 4 * 1024 * 1024 := rfl
      rw [checkEntriesM]
      refine .round ?_
      dsimp only
      split_ifs with hlong hmuch
      · exact .refused (by omega) (Nat.le_refl 1) budget
      · exact .counted rfl (by dsimp only; omega) (by dsimp only; omega)
          (.refused (by dsimp only; omega) (Nat.le_refl 1) _)
      · have hleft : PayloadBudget.Left { budget with chars := budget.chars + key.length } :=
          ⟨hnodes, Nat.not_lt.mp hmuch⟩
        refine .counted rfl (by dsimp only; omega) (by dsimp only; omega) ?_
        refine (bounded_value value (depth + 1) _ (by omega) hleft).andThen ?_
        exact fun budget' hleft' => bounded_entries entries depth budget' hdepth hleft'

end

/-! ### Every run -/

/-- **The payload check is itself bounded**: its run on any value whatever enters
`checkPayloadValue` and goes round its loops at most 1001 times each, never at a level below the
ninth, with counters that stay within 32 bits. -/
theorem check_is_bounded (value : QVariant) :
    (isCanonicalValueM value).val = isCanonicalValue value ∧
      (isCanonicalValueM value).trace.countP Event.isEntry ≤ 1001 ∧
      (isCanonicalValueM value).trace.countP Event.isRound ≤ 1001 ∧
      (∀ depth, .entered depth ∈ (isCanonicalValueM value).trace → depth ≤ 9) ∧
      ∀ budget, .counted budget ∈ (isCanonicalValueM value).trace →
        (budget.nodes ≤ 1001 ∧ budget.chars ≤ 4 * 1024 * 1024 + 65536) ∧
          budget.nodes < 2 ^ 31 ∧ budget.chars < 2 ^ 31 := by
  have hbounded := bounded_value value 1 {} (by decide) ⟨Nat.zero_le _, Nat.zero_le _⟩
  have htrace : (isCanonicalValueM value).trace = (checkPayloadValueM value 1 {}).trace :=
    List.append_nil _
  have hcount : entries (checkPayloadValueM value 1 {}) ≤ 1001 ∧
      rounds (checkPayloadValueM value 1 {}) ≤ entries (checkPayloadValueM value 1 {}) := by
    cases hval : (checkPayloadValueM value 1 {}).val.1 with
    | true =>
        obtain ⟨⟨hnodes, -⟩, hpaid, hrounds⟩ := hbounded.accepted hval
        dsimp only at hpaid
        exact ⟨by omega, by omega⟩
    | false =>
        obtain ⟨hentries, hrounds⟩ := hbounded.rejected hval
        exact ⟨by omega, by omega⟩
  rw [htrace]
  refine ⟨?_, hcount.1, hcount.2.trans hcount.1, fun depth h => hbounded.within _ h,
    fun budget h => ?_⟩
  · rw [isCanonicalValueM, bind_val, pure_val, checkPayloadValueM_val, isCanonicalValue]
  · obtain ⟨hnodes, hchars⟩ := hbounded.within _ h
    exact ⟨⟨hnodes, hchars⟩, by omega, by omega⟩

/-- A string in a map in a list. -/
theorem small_payload :
    .entered 3 ∈ (isCanonicalValueM (.list [.map [([107], .string [104, 105])]])).trace ∧
      .counted ⟨3, 3⟩ ∈ (isCanonicalValueM (.list [.map [([107], .string [104, 105])]])).trace ∧
      3 ≤ 9 ∧ 3 < 2 ^ 31 := by
  obtain ⟨-, -, -, hdepth, hbudget⟩ :=
    check_is_bounded (.list [.map [([107], .string [104, 105])]])
  have hentered :
      .entered 3 ∈ (isCanonicalValueM (.list [.map [([107], .string [104, 105])]])).trace := by
    decide
  have hcounted : .counted ⟨3, 3⟩ ∈
      (isCanonicalValueM (.list [.map [([107], .string [104, 105])]])).trace := by decide
  exact ⟨hentered, hcounted, hdepth 3 hentered, (hbudget ⟨3, 3⟩ hcounted).2.1⟩

/-- The bounds on the entries and the level are met: a list of more values than may be, and one
that lies too deep. -/
example : (isCanonicalValueM (.list (List.replicate 1500 .invalid))).trace.countP Event.isEntry =
      1001 ∧
    .entered 9 ∈ (isCanonicalValueM (.list [.list [.list [.list [.list [.list [.list [.list
      [.list []]]]]]]]])).trace := by decide +kernel

end LogosViewRuntime.IntentRules
