import LogosViewRuntime.Lib.Words

/-! # Names of intents

`isValidName` and `isReservedName`, with the grammar that the header gives for names.  The check
splits a name and scans each segment with a flag for the last underscore; it accepts exactly the
words of the grammar that have the right length (`isValidName_iff`). -/

namespace LogosViewRuntime.IntentRules

open Words
open scoped Computability

/-- A UTF-16 unit. -/
abbrev QChar := UInt16

abbrev QString := List QChar

def QLatin1Char (c : Char) : QChar := UInt16.ofNat c.toNat

def QStringLiteral (s : String) : QString := s.toList.map QLatin1Char

/-! ### The check -/

/-- The loop of `isValidSegment`, with what is left of the segment. -/
def scan (prevUnderscore : Bool) : QString → Bool
  | [] => true
  | c :: seg =>
      if c = QLatin1Char '_' then
        if prevUnderscore then false
        else if seg.isEmpty then false
        else scan true seg
      else
        let lower := QLatin1Char 'a' ≤ c && c ≤ QLatin1Char 'z'
        let digit := QLatin1Char '0' ≤ c && c ≤ QLatin1Char '9'
        if !lower && !digit then false else scan false seg

def isValidSegment : QString → Bool
  | [] => false
  | first :: seg =>
      if first < QLatin1Char 'a' || QLatin1Char 'z' < first then false
      else scan false (first :: seg)

def isValidName (name : QString) : Bool :=
  if name.length < 3 || 64 < name.length then false
  else
    let segments := name.splitOn (QLatin1Char '.')
    if segments.length < 2 || 4 < segments.length then false
    else segments.all isValidSegment

def isReservedName (name : QString) : Bool := (QStringLiteral "logos.").isPrefixOf name

/-! ### The grammar -/

def IsLower (c : QChar) : Prop := QLatin1Char 'a' ≤ c ∧ c ≤ QLatin1Char 'z'

def IsDigit (c : QChar) : Prop := QLatin1Char '0' ≤ c ∧ c ≤ QLatin1Char '9'

/-- `[a-z]` -/
def lower : Language QChar := letter IsLower

/-- `[a-z0-9]` -/
def lowerOrDigit : Language QChar := letter fun c => IsLower c ∨ IsDigit c

/-- `"_"` -/
def underscore : Language QChar := letter (· = QLatin1Char '_')

/-- `"."` -/
def dot : Language QChar := letter (· = QLatin1Char '.')

/-- `[a-z] [a-z0-9]* ( "_" [a-z0-9]+ )*` -/
def segment : Language QChar :=
  lower * lowerOrDigit∗ * (underscore * (lowerOrDigit * lowerOrDigit∗))∗

/-- `segment ( "." segment ){1,3}` -/
def intent : Language QChar := segment * times 1 3 (dot * segment)

/-! ### Segments -/

/-- What may follow the first letter of a segment. -/
def rest : Language QChar := lowerOrDigit∗ * (underscore * (lowerOrDigit * lowerOrDigit∗))∗

theorem segment_eq : segment = lower * rest := mul_assoc _ _ _

/-- The rest of a segment ends, goes on with a letter or digit, or with an underscore and a letter
or digit. -/
theorem rest_eq : rest = 1 + lowerOrDigit * rest + underscore * (lowerOrDigit * rest) := by
  have hrest : underscore * (lowerOrDigit * rest) =
      underscore * (lowerOrDigit * lowerOrDigit∗) *
        (underscore * (lowerOrDigit * lowerOrDigit∗))∗ := by
    simp only [rest, mul_assoc]
  calc rest = (1 + lowerOrDigit * lowerOrDigit∗) *
        (underscore * (lowerOrDigit * lowerOrDigit∗))∗ := by
        rw [Language.one_add_self_mul_kstar_eq_kstar, rest]
    _ = (underscore * (lowerOrDigit * lowerOrDigit∗))∗ + lowerOrDigit * rest := by
        rw [add_mul, one_mul, mul_assoc, rest]
    _ = 1 + underscore * (lowerOrDigit * rest) + lowerOrDigit * rest := by
        rw [hrest, Language.one_add_self_mul_kstar_eq_kstar]
    _ = _ := by rw [add_right_comm]

theorem nil_mem_rest : [] ∈ rest := by
  rw [rest_eq]
  exact .inl (.inl rfl)

theorem cons_mem_rest {c : QChar} {w : QString} : c :: w ∈ rest ↔
    (IsLower c ∨ IsDigit c) ∧ w ∈ rest ∨ c = QLatin1Char '_' ∧ w ∈ lowerOrDigit * rest := by
  have hnil : c :: w ∉ (1 : Language QChar) := by
    intro h
    cases h
  rw [rest_eq, Language.mem_add, Language.mem_add, ← rest_eq]
  unfold lowerOrDigit underscore
  rw [cons_mem_letter_mul, cons_mem_letter_mul]
  simp only [hnil, false_or]

theorem not_underscore : ¬ (IsLower (QLatin1Char '_') ∨ IsDigit (QLatin1Char '_')) := by
  unfold IsLower IsDigit
  decide

theorem not_dot : ¬ (IsLower (QLatin1Char '.') ∨ IsDigit (QLatin1Char '.')) := by
  unfold IsLower IsDigit
  decide

/-- One round of the loop. -/
theorem scan_cons {prevUnderscore : Bool} {c : QChar} {seg : QString} :
    scan prevUnderscore (c :: seg) = true ↔
      (IsLower c ∨ IsDigit c) ∧ scan false seg = true ∨
        c = QLatin1Char '_' ∧ prevUnderscore = false ∧ seg ≠ [] ∧ scan true seg = true := by
  by_cases hc : c = QLatin1Char '_'
  · subst hc
    rw [scan, if_pos rfl]
    cases prevUnderscore <;> cases seg <;> simp [not_underscore]
  · have hletter : (!(QLatin1Char 'a' ≤ c && c ≤ QLatin1Char 'z' : Bool) &&
        !(QLatin1Char '0' ≤ c && c ≤ QLatin1Char '9' : Bool)) = true ↔
          ¬ (IsLower c ∨ IsDigit c) := by
      simp only [Bool.and_eq_true, Bool.not_eq_true', ← Bool.not_eq_true, decide_eq_true_eq,
        IsLower, IsDigit, not_or]
    rw [scan, if_neg hc]
    by_cases h : IsLower c ∨ IsDigit c
    · rw [if_neg (by rw [hletter]; exact not_not.mpr h)]
      simp [h, hc]
    · rw [if_pos (hletter.mpr h)]
      simp [h, hc]

/-- The loop accepts what may follow; after an underscore a letter or digit has to come. -/
theorem scan_iff (seg : QString) : (scan false seg = true ↔ seg ∈ rest) ∧
    (seg ≠ [] → (scan true seg = true ↔ seg ∈ lowerOrDigit * rest)) := by
  induction seg with
  | nil => exact ⟨iff_of_true rfl nil_mem_rest, fun hne => absurd rfl hne⟩
  | cons c seg ih =>
      obtain ⟨ihrest, ihafter⟩ := ih
      refine ⟨?_, fun _ => ?_⟩
      · rw [scan_cons, cons_mem_rest, ihrest]
        have hafter : false = false ∧ seg ≠ [] ∧ scan true seg = true ↔
            seg ∈ lowerOrDigit * rest := by
          constructor
          · rintro ⟨-, hne, hscan⟩
            exact (ihafter hne).mp hscan
          · intro hseg
            have hne : seg ≠ [] := by
              rintro rfl
              exact nil_notMem_letter_mul hseg
            exact ⟨rfl, hne, (ihafter hne).mpr hseg⟩
        rw [hafter]
      · rw [scan_cons, lowerOrDigit, cons_mem_letter_mul, ihrest]
        simp

theorem isValidSegment_iff (seg : QString) : isValidSegment seg = true ↔ seg ∈ segment := by
  rw [segment_eq, lower]
  cases seg with
  | nil => exact iff_of_false Bool.false_ne_true nil_notMem_letter_mul
  | cons first seg =>
      have hfirst : (first < QLatin1Char 'a' || QLatin1Char 'z' < first : Bool) = true ↔
          ¬ IsLower first := by
        simp only [Bool.or_eq_true, decide_eq_true_eq, IsLower, not_and_or, UInt16.not_le]
      rw [cons_mem_letter_mul, isValidSegment, ← (scan_iff seg).1]
      by_cases h : IsLower first
      · have hne : first ≠ QLatin1Char '_' := by
          rintro rfl
          exact not_underscore (.inl h)
        rw [if_neg (by rw [hfirst]; exact not_not.mpr h), scan_cons]
        simp [h, hne]
      · rw [if_pos (hfirst.mpr h)]
        simp [h]

theorem dot_notMem_of_scan {prevUnderscore : Bool} {seg : QString}
    (h : scan prevUnderscore seg = true) : QLatin1Char '.' ∉ seg := by
  induction seg generalizing prevUnderscore with
  | nil => exact List.not_mem_nil
  | cons c seg ih =>
      intro hdot
      obtain ⟨hc, hseg⟩ | ⟨rfl, -, -, hseg⟩ := scan_cons.mp h
      · obtain rfl | hdot := List.mem_cons.mp hdot
        · exact not_dot hc
        · exact ih hseg hdot
      · obtain hdot | hdot := List.mem_cons.mp hdot
        · revert hdot
          decide
        · exact ih hseg hdot

theorem dot_notMem_segment {seg : QString} (h : seg ∈ segment) : QLatin1Char '.' ∉ seg := by
  rw [segment_eq, lower] at h
  cases seg with
  | nil => exact List.not_mem_nil
  | cons first seg =>
      obtain ⟨hfirst, hseg⟩ := cons_mem_letter_mul.mp h
      have hscan : scan false (first :: seg) = true :=
        scan_cons.mpr (.inl ⟨.inl hfirst, (scan_iff seg).1.mpr hseg⟩)
      exact dot_notMem_of_scan hscan

/-! ### Names -/

/-- The check accepts the words of the grammar that are neither too short nor too long. -/
theorem isValidName_iff (name : QString) :
    isValidName name = true ↔ 3 ≤ name.length ∧ name.length ≤ 64 ∧ name ∈ intent := by
  rw [intent, dot, mem_separated_iff_splitOn fun _ => dot_notMem_segment, isValidName]
  dsimp only
  split_ifs with hlength hsegments
  · simp at hlength
    simp
    omega
  · simp at hsegments
    simp
    omega
  · simp only [Bool.or_eq_true, decide_eq_true_eq, not_or, Nat.not_lt] at hlength hsegments
    simp [isValidSegment_iff, hlength, hsegments]

/-- `name` is these two to four segments with dots in between. -/
structure Splits (name : QString) (segments : List QString) : Prop where
  two_le : 2 ≤ segments.length
  le_four : segments.length ≤ 4
  segment : ∀ seg ∈ segments, seg ∈ segment
  join : [QLatin1Char '.'].intercalate segments = name

variable {name : QString} {segments : List QString}

theorem Splits.eq (h : Splits name segments) : segments = name.splitOn (QLatin1Char '.') := by
  have hne : segments ≠ [] := List.ne_nil_of_length_pos (by have := h.two_le; omega)
  exact (intercalate_eq_iff hne fun seg hseg => dot_notMem_segment (h.segment seg hseg)).mp h.join

theorem splits_of_isValidName (h : isValidName name = true) :
    Splits name (name.splitOn (QLatin1Char '.')) := by
  obtain ⟨-, -, hname⟩ := (isValidName_iff name).mp h
  rw [intent, dot, mem_separated_iff_splitOn fun _ => dot_notMem_segment] at hname
  obtain ⟨⟨htwo, hfour⟩, hsegments⟩ := hname
  exact ⟨htwo, hfour, hsegments, List.intercalate_splitOn _⟩

theorem Splits.isReservedName_iff (h : Splits name segments) :
    isReservedName name = true ↔ segments.head? = some (QStringLiteral "logos") := by
  have hreserved : QStringLiteral "logos." = QStringLiteral "logos" ++ [QLatin1Char '.'] := rfl
  have hlogos : QLatin1Char '.' ∉ QStringLiteral "logos" := by decide
  have htwo := h.two_le
  obtain rfl := h.join
  cases segments with
  | nil => simp at htwo
  | cons first segments =>
      have hne : segments ≠ [] := by
        rintro rfl
        simp at htwo
      have hfirst := dot_notMem_segment (h.segment first List.mem_cons_self)
      rw [isReservedName, hreserved, List.isPrefixOf_iff_prefix,
        List.intercalate_cons_of_ne_nil hne, List.append_assoc, List.singleton_append,
        append_singleton_prefix hlogos hfirst]
      simp [eq_comm]

/-- **The name check** accepts exactly the names of the grammar of 3 to 64 units.  A name it accepts
has one split into two to four segments, and is reserved exactly when the first is `logos`. -/
theorem isValidName_grammar (name : QString) :
    (isValidName name = true ↔ 3 ≤ name.length ∧ name.length ≤ 64 ∧ name ∈ intent) ∧
      (isValidName name = true → ∃! segments, Splits name segments) ∧
      ∀ segments, Splits name segments →
        (isReservedName name = true ↔ segments.head? = some (QStringLiteral "logos")) := by
  refine ⟨isValidName_iff name, fun h => ?_, fun segments h => h.isReservedName_iff⟩
  refine ⟨_, splits_of_isValidName h, fun segments hsegments => ?_⟩
  exact hsegments.eq

/-- A name of the platform's. -/
theorem platform_name : ∃ segments, Splits (QStringLiteral "logos.core.re_start") segments ∧
    isReservedName (QStringLiteral "logos.core.re_start") = true := by
  obtain ⟨-, hunique, hreserved⟩ := isValidName_grammar (QStringLiteral "logos.core.re_start")
  obtain ⟨segments, hsegments, -⟩ := hunique (by decide)
  exact ⟨segments, hsegments, (hreserved segments hsegments).mpr (by rw [hsegments.eq]; decide)⟩

end LogosViewRuntime.IntentRules
