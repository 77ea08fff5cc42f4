import LogosViewRuntime.ErrorPayload
import LogosViewRuntime.Lib.JsonText

/-! # Reading an error payload

What a view finds when it parses the payload it was answered with.  The error payloads are written
by hand into the text of an object, so the first thing to know is that whatever the strings are,
quotes, backslashes and control characters included, the object that is read is the one that was
meant. -/

namespace LogosViewRuntime

/-- `JSON.parse(payload)[name]`, where that is a string. -/
def field (name payload : String) : Option String :=
  (JsonText.read payload).bind (·.lookup name)

namespace Json

open JsonText

/-- What is written for a control character is its four digits. -/
theorem codeUnit_hexDigit : ∀ n < 32,
    codeUnit '0' '0' (hexDigit (n / 16)) (hexDigit (n % 16)) = some (Char.ofNat n) := by
  decide

/-- What the writer escapes is read back. -/
theorem escapes : Escapes escapeChar := by
  intro c rest
  unfold escapeChar
  split_ifs with hquote hslash hb hf hn hr ht hcontrol
  · subst hquote
    exact readChars_escaped (by decide) (by decide) rest
  · subst hslash
    exact readChars_escaped (by decide) (by decide) rest
  · obtain rfl : c = Char.ofNat 8 := by rw [← hb, Char.ofNat_toNat]
    exact readChars_escaped (by decide) (by decide) rest
  · obtain rfl : c = Char.ofNat 12 := by rw [← hf, Char.ofNat_toNat]
    exact readChars_escaped (by decide) (by decide) rest
  · subst hn
    exact readChars_escaped (by decide) (by decide) rest
  · subst hr
    exact readChars_escaped (by decide) (by decide) rest
  · subst ht
    exact readChars_escaped (by decide) (by decide) rest
  · have hcode := codeUnit_hexDigit c.toNat hcontrol
    rw [Char.ofNat_toNat] at hcode
    exact readChars_codeUnit hcode rest
  · exact readChars_plain hquote hslash (Nat.not_lt.mp hcontrol) rest

theorem read_object (members : List (String × String)) :
    read (object members) = some members := JsonText.read_object escapes members

end Json

/-- The members of an error payload, as they are read. -/
theorem read_makeErrorPayload (error module method detail : String) :
    JsonText.read (makeErrorPayload error module method detail) =
      some (("error", error) ::
        [("message", detail), ("method", method), ("module", module)].filter fun m => m.2 ≠ "") :=
  Json.read_object _

/-- Each string is under its name, and an empty one is not there. -/
theorem field_makeErrorPayload (error module method detail : String) :
    field "error" (makeErrorPayload error module method detail) = some error ∧
      field "module" (makeErrorPayload error module method detail) =
        (if module = "" then none else some module) ∧
      field "method" (makeErrorPayload error module method detail) =
        (if method = "" then none else some method) ∧
      field "message" (makeErrorPayload error module method detail) =
        if detail = "" then none else some detail := by
  simp only [field, read_makeErrorPayload, Option.bind_some]
  refine ⟨rfl, ?_, ?_, ?_⟩ <;>
    by_cases hdetail : detail = "" <;> by_cases hmethod : method = "" <;>
      by_cases hmodule : module = "" <;>
      simp [hdetail, hmethod, hmodule, List.lookup_cons]

/-- A field that is left out when it is empty says as much as one that is there. -/
theorem eq_of_left_out {s t : String}
    (h : (if s = "" then none else some s) = if t = "" then none else some t) : s = t := by
  split_ifs at h with hs ht ht
  · exact hs.trans ht.symm
  · exact Option.some.inj h

/-- **An error payload reads as what it was made of**, whatever the strings are: the error under
`error`, the others under their names unless they are empty.  So two payloads are the same text
only if they were made of the same strings. -/
theorem error_payload_reads_back (error module method detail : String) :
    JsonText.read (logosWebErrorPayload error module method detail) =
        some (("error", error) ::
          [("message", detail), ("method", method), ("module", module)].filter fun m => m.2 ≠ "") ∧
      ∀ error' module' method' detail',
        logosWebErrorPayload error module method detail =
            makeErrorPayload error' module' method' detail' ↔
          error = error' ∧ module = module' ∧ method = method' ∧ detail = detail' := by
  refine ⟨read_makeErrorPayload error module method detail, fun error' module' method' detail' => ?_⟩
  constructor
  · intro h
    have hfields := field_makeErrorPayload error module method detail
    have hfields' := field_makeErrorPayload error' module' method' detail'
    rw [← h] at hfields'
    obtain ⟨herror, hmodule, hmethod, hdetail⟩ := hfields
    obtain ⟨herror', hmodule', hmethod', hdetail'⟩ := hfields'
    exact ⟨Option.some.inj (herror.symm.trans herror'),
      eq_of_left_out (hmodule.symm.trans hmodule'), eq_of_left_out (hmethod.symm.trans hmethod'),
      eq_of_left_out (hdetail.symm.trans hdetail')⟩
  · rintro ⟨rfl, rfl, rfl, rfl⟩
    rfl

example : field "message" (makeErrorPayload "timeout" "wallet" "send" "said \"no\"\n") =
    some "said \"no\"\n" := by decide

end LogosViewRuntime
