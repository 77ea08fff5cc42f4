import LogosViewRuntime.IntentPayload

/-! # Error codes and the result envelope

`normalizeError` and `makeEnvelope`, and what they are to the payload rules: an envelope is a
payload itself, so the answer in it lies one level deeper and shares its limits with three values
and three keys (`envelope_of_answer`).  An answer that is just canonical makes an envelope that is
not. -/

namespace LogosViewRuntime.IntentRules

/-! ### The codes -/

def errNotDeclared : QString := QStringLiteral "not_declared"

def errUnavailable : QString := QStringLiteral "unavailable"

def errCancelled : QString := QStringLiteral "cancelled"

def errTimeout : QString := QStringLiteral "timeout"

def errFailed : QString := QStringLiteral "failed"

def errBadRequest : QString := QStringLiteral "bad_request"

def allErrorCodes : List QString :=
  [errNotDeclared, errUnavailable, errBadRequest, errCancelled, errTimeout, errFailed]

def isErrorCode (code : QString) : Bool := allErrorCodes.contains code

def normalizeError (ok : Bool) (error : QString) : QString :=
  if ok then []
  else if error = errCancelled || error = errTimeout || error = errFailed || error = errBadRequest
  then error
  else errFailed

/-! ### The envelope -/

abbrev QVariantMap := List (QString × QVariant)

/-- `QMap::insert` -/
def QVariantMap.insert (key : QString) (value : QVariant) : QVariantMap → QVariantMap
  | [] => [(key, value)]
  | (k, v) :: m =>
      if key = k then (key, value) :: m
      else if key < k then (key, value) :: (k, v) :: m
      else (k, v) :: QVariantMap.insert key value m

def makeEnvelope (ok : Bool) (data : QVariant) (error : QString) : QVariantMap :=
  let envelope := QVariantMap.insert (QStringLiteral "ok") (.bool ok) []
  let envelope := QVariantMap.insert (QStringLiteral "data") (if ok then data else .invalid) envelope
  QVariantMap.insert (QStringLiteral "error") (.string (if ok then [] else error)) envelope

theorem makeEnvelope_eq (ok : Bool) (data : QVariant) (error : QString) :
    makeEnvelope ok data error =
      [(QStringLiteral "data", if ok then data else .invalid),
        (QStringLiteral "error", .string (if ok then [] else error)),
        (QStringLiteral "ok", .bool ok)] := by
  have hdata : QStringLiteral "data" < QStringLiteral "ok" := by decide
  have hdata' : QStringLiteral "data" ≠ QStringLiteral "ok" := by decide
  have herror : QStringLiteral "error" < QStringLiteral "ok" := by decide
  have herror' : QStringLiteral "error" ≠ QStringLiteral "ok" := by decide
  have hlater : ¬ QStringLiteral "error" < QStringLiteral "data" := by decide
  have hlater' : QStringLiteral "error" ≠ QStringLiteral "data" := by decide
  simp only [makeEnvelope, QVariantMap.insert, if_pos hdata, if_neg hdata', if_pos herror, if_neg herror',
    if_neg hlater, if_neg hlater']

/-! ### Deeper in a payload -/

/-- What a value may be that lies at level `root`, with so many values and UTF-16 units left to
it. -/
structure Fits (root nodes chars : ℕ) (v : QVariant) : Prop where
  level : ∀ level w, .value level w ∈ v.items root → level ≤ 8
  nodes : ((v.items root).filter Item.isValue).length ≤ nodes
  string : ∀ level s, .value level (.string s) ∈ v.items root → s.length ≤ 65536
  key : ∀ key, .key key ∈ v.items root → key.length ≤ 64
  chars : ((v.items root).map Item.chars).sum ≤ chars
  allowed : ∀ level w, .value level w ∈ v.items root → w.IsAllowed

theorem fits_canonical {v : QVariant} : Fits 1 1000 (4 * 1024 * 1024) v ↔ Canonical v := by
  constructor
  · rintro ⟨hlevel, hnodes, hstring, hkey, hchars, hallowed⟩
    exact ⟨hlevel, hnodes, hstring, hkey, hchars, hallowed⟩
  · rintro ⟨hlevel, hnodes, hstring, hkey, hchars, hallowed⟩
    exact ⟨hlevel, hnodes, hstring, hkey, hchars, hallowed⟩

def Item.deeper : Item → Item
  | .value level v => .value (level + 1) v
  | .key k => .key k

mutual

theorem items_succ : ∀ (v : QVariant) (level : ℕ),
    v.items (level + 1) = (v.items level).map Item.deeper
  | .list elements, level => by
      rw [QVariant.items, QVariant.items, elementItems_succ elements (level + 1), List.map_cons]
      rfl
  | .map entries, level => by
      rw [QVariant.items, QVariant.items, entryItems_succ entries (level + 1), List.map_cons]
      rfl
  | .invalid, level => rfl
  | .bool _, level => rfl
  | .int _, level => rfl
  | .longLong _, level => rfl
  | .double _, level => rfl
  | .string _, level => rfl
  | .other, level => rfl

theorem elementItems_succ : ∀ (elements : List QVariant) (level : ℕ),
    elementItems elements (level + 1) = (elementItems elements level).map Item.deeper
  | [], level => rfl
  | element :: elements, level => by
      rw [elementItems, elementItems, items_succ element level, elementItems_succ elements level,
        List.map_append]

theorem entryItems_succ : ∀ (entries : List (QString × QVariant)) (level : ℕ),
    entryItems entries (level + 1) = (entryItems entries level).map Item.deeper
  | [], level => rfl
  | (key, value) :: entries, level => by
      rw [entryItems, entryItems, items_succ value level, entryItems_succ entries level,
        List.map_cons, List.map_append]
      rfl

end

/-- What fits somewhere fits at a level higher up, with as much left to it. -/
theorem Fits.up {root nodes chars nodes' chars' : ℕ} {v : QVariant}
    (h : Fits (root + 1) nodes chars v) (hnodes : nodes ≤ nodes') (hchars : chars ≤ chars') :
    Fits root nodes' chars' v := by
  obtain ⟨hlevel, hcount, hstring, hkey, hsum, hallowed⟩ := h
  rw [items_succ] at hcount hsum
  have hvalue : ∀ level w, .value level w ∈ v.items root →
      .value (level + 1) w ∈ v.items (root + 1) := by
    intro level w hw
    rw [items_succ]
    exact List.mem_map.mpr ⟨_, hw, rfl⟩
  refine ⟨fun level w hw => ?_, ?_, fun level s hs => hstring _ s (hvalue level _ hs),
    fun key hk => hkey key ?_, ?_, fun level w hw => hallowed _ w (hvalue level w hw)⟩
  · exact Nat.le_of_succ_le (hlevel _ w (hvalue level w hw))
  · have hsame : (Item.isValue ∘ Item.deeper) = Item.isValue := by
      funext item
      cases item <;> rfl
    rw [List.filter_map, List.length_map, hsame] at hcount
    exact Nat.le_trans hcount hnodes
  · rw [items_succ]
    exact List.mem_map.mpr ⟨_, hk, rfl⟩
  · have hsame : (Item.chars ∘ Item.deeper) = Item.chars := by
      funext item
      cases item with
      | key key => rfl
      | value level w => cases w <;> rfl
    rw [List.map_map, hsame] at hsum
    exact Nat.le_trans hsum hchars

theorem fits_invalid {root nodes chars : ℕ} (hroot : root ≤ 8) (hnodes : 1 ≤ nodes) :
    Fits root nodes chars .invalid := by
  have hitems : QVariant.invalid.items root = [.value root .invalid] := rfl
  refine ⟨fun level w hw => ?_, hnodes, fun level s hs => ?_, fun key hk => ?_, Nat.zero_le _,
    fun level w hw => ?_⟩
  · rw [hitems, List.mem_singleton] at hw
    obtain ⟨rfl, -⟩ := Item.value.inj hw
    exact hroot
  · rw [hitems, List.mem_singleton] at hs
    cases (Item.value.inj hs).2
  · rw [hitems, List.mem_singleton] at hk
    cases hk
  · rw [hitems, List.mem_singleton] at hw
    obtain ⟨-, rfl⟩ := Item.value.inj hw
    trivial

/-! ### An answer in its envelope -/

/-- The envelope, its keys and the other two values take their share. -/
theorem canonical_envelope (data : QVariant) (error : QString) (ok : Bool) :
    Canonical (.map [(QStringLiteral "data", data), (QStringLiteral "error", .string error),
      (QStringLiteral "ok", .bool ok)]) ↔
        error.length ≤ 65536 ∧ Fits 2 997 (4 * 1024 * 1024 - 11 - error.length) data := by
  generalize hm : [(QStringLiteral "data", data), (QStringLiteral "error", QVariant.string error),
    (QStringLiteral "ok", QVariant.bool ok)] = m
  have hitems : (QVariant.map m).items 1 = .value 1 (.map m) :: .key (QStringLiteral "data") ::
      (data.items 2 ++ [.key (QStringLiteral "error"), .value 2 (.string error),
        .key (QStringLiteral "ok"), .value 2 (.bool ok)]) := by
    rw [QVariant.items, ← hm]
    rfl
  have hdata : (QStringLiteral "data").length = 4 := rfl
  have herror : (QStringLiteral "error").length = 5 := rfl
  have hok : (QStringLiteral "ok").length = 2 := rfl
  have hcount : ((QVariant.map m).items 1).filter Item.isValue = .value 1 (.map m) ::
      ((data.items 2).filter Item.isValue ++ [.value 2 (.string error), .value 2 (.bool ok)]) := by
    rw [hitems]
    simp [List.filter_cons, Item.isValue]
  have hsum : (((QVariant.map m).items 1).map Item.chars).sum =
      4 + ((data.items 2).map Item.chars).sum + 5 + error.length + 2 := by
    rw [hitems]
    simp [Item.chars, hdata, herror, hok]
    omega
  have hinside : ∀ item ∈ data.items 2, item ∈ (QVariant.map m).items 1 := by
    intro item hitem
    rw [hitems]
    simp [hitem]
  constructor
  · rintro ⟨hlevel, hnodes, hstring, hkey, hchars, hallowed⟩
    rw [hcount] at hnodes
    simp only [List.length_cons, List.length_append, List.length_nil] at hnodes
    rw [hsum] at hchars
    refine ⟨hstring 2 error (by rw [hitems]; simp), ?_⟩
    refine ⟨fun level w hw => hlevel level w (hinside _ hw), by omega,
      fun level s hs => hstring level s (hinside _ hs), fun key hk => hkey key (hinside _ hk),
      by omega, fun level w hw => hallowed level w (hinside _ hw)⟩
  · rintro ⟨hlong, hlevel, hnodes, hstring, hkey, hchars, hallowed⟩
    refine ⟨fun level w hw => ?_, ?_, fun level s hs => ?_, fun key hk => ?_, ?_,
      fun level w hw => ?_⟩
    · rw [hitems] at hw
      simp only [List.mem_cons, List.mem_append, Item.value.injEq, reduceCtorEq, List.not_mem_nil,
        false_or, or_false] at hw
      obtain ⟨rfl, -⟩ | hw | ⟨rfl, -⟩ | ⟨rfl, -⟩ := hw
      · omega
      · exact hlevel level w hw
      · omega
      · omega
    · rw [hcount]
      simp only [List.length_cons, List.length_append, List.length_nil]
      omega
    · rw [hitems] at hs
      simp only [List.mem_cons, List.mem_append, Item.value.injEq, reduceCtorEq, List.not_mem_nil,
        and_false, false_or, or_false, QVariant.string.injEq] at hs
      obtain hs | ⟨-, rfl⟩ := hs
      · exact hstring level s hs
      · exact hlong
    · rw [hitems] at hk
      simp only [List.mem_cons, List.mem_append, Item.key.injEq, reduceCtorEq, List.not_mem_nil,
        false_or, or_false] at hk
      obtain rfl | hk | rfl | rfl := hk
      · decide
      · exact hkey key hk
      · decide
      · decide
    · rw [hsum]
      omega
    · rw [hitems] at hw
      simp only [List.mem_cons, List.mem_append, Item.value.injEq, reduceCtorEq, List.not_mem_nil,
        false_or, or_false] at hw
      obtain ⟨-, rfl⟩ | hw | ⟨-, rfl⟩ | ⟨-, rfl⟩ := hw
      · trivial
      · exact hallowed level w hw
      · trivial
      · trivial

/-- A code that a provider may report, or `failed`. -/
theorem normalizeError_cases (error : QString) : normalizeError false error = error ∧
      (error = errCancelled ∨ error = errTimeout ∨ error = errFailed ∨ error = errBadRequest) ∨
    normalizeError false error = errFailed := by
  unfold normalizeError
  rw [if_neg Bool.false_ne_true]
  split_ifs with hcode
  · refine .inl ⟨rfl, ?_⟩
    simpa [or_assoc] using hcode
  · exact .inr rfl

/-- What a provider may report. -/
def Reportable (code : QString) : Prop :=
  isErrorCode code = true ∧ code ≠ errNotDeclared ∧ code ≠ errUnavailable ∧ code.length ≤ 65536

instance (code : QString) : Decidable (Reportable code) := inferInstanceAs (Decidable (_ ∧ _))

theorem reportable_normalizeError (error : QString) : Reportable (normalizeError false error) := by
  obtain ⟨he, rfl | rfl | rfl | rfl⟩ | he := normalizeError_cases error
  · rw [he]
    decide
  · rw [he]
    decide
  · rw [he]
    decide
  · rw [he]
    decide
  · rw [he]
    decide

/-- **The envelope of an answer.**  A failure is told by one of the codes that a provider may
report and by nothing else of what the provider said; its envelope always is a canonical payload.
That of a success is one exactly when the answer fits a level further down and leaves room for three
values and eleven UTF-16 units, which is more than being canonical itself. -/
theorem envelope_of_answer (data : QVariant) (error : QString) :
    (∃ code, Reportable code ∧
      makeEnvelope false data (normalizeError false error) = makeEnvelope false .invalid code ∧
      normalizeError false code = code) ∧
    isCanonicalPayload (makeEnvelope false data (normalizeError false error)) = true ∧
    makeEnvelope true data error = makeEnvelope true data (normalizeError true error) ∧
    (isCanonicalPayload (makeEnvelope true data error) = true ↔
      Fits 2 997 (4 * 1024 * 1024 - 11) data) ∧
    (isCanonicalPayload (makeEnvelope true data error) = true → isCanonicalValue data = true) := by
  have hsuccess : isCanonicalPayload (makeEnvelope true data error) = true ↔
      Fits 2 997 (4 * 1024 * 1024 - 11) data := by
    rw [(isCanonicalValue_iff .invalid _).2, makeEnvelope_eq, if_pos rfl, if_pos rfl,
      canonical_envelope]
    exact and_iff_right (Nat.zero_le _)
  refine ⟨⟨normalizeError false error, reportable_normalizeError error, ?_, ?_⟩, ?_, ?_, hsuccess,
    fun h => ?_⟩
  · rw [makeEnvelope_eq, makeEnvelope_eq]
    rfl
  · obtain ⟨he, -⟩ | he := normalizeError_cases error
    · rw [he, he]
    · rw [he]
      decide
  · rw [(isCanonicalValue_iff .invalid _).2, makeEnvelope_eq, if_neg Bool.false_ne_true,
      if_neg Bool.false_ne_true, canonical_envelope]
    obtain ⟨-, -, -, hlong⟩ := reportable_normalizeError error
    exact ⟨hlong, fits_invalid (by omega) (by omega)⟩
  · rw [makeEnvelope_eq, makeEnvelope_eq]
    rfl
  · exact (isCanonicalValue_iff data []).1.mpr
      (fits_canonical.mp ((hsuccess.mp h).up (by omega) (by omega)))

/-- An answer of eight levels is canonical and its envelope is not. -/
theorem deep_answer : ∃ data, isCanonicalValue data = true ∧
    ¬ Fits 2 997 (4 * 1024 * 1024 - 11) data ∧
    normalizeError false (QStringLiteral "no such key in keystore") = errFailed := by
  refine ⟨.list [.list [.list [.list [.list [.list [.list [.list []]]]]]]], by decide, ?_,
    by decide⟩
  rw [← (envelope_of_answer _ []).2.2.2.1]
  decide

end LogosViewRuntime.IntentRules
