import Mathlib.Data.List.Basic

/-! # The error payload

`makeErrorPayload` of the desktop bridge and `logosWebErrorPayload` of the web half build the same
object, `{ error, message, method, module }` without its empty members, as compact JSON text.  A
`QJsonObject` keeps its members in ascending key order, and the writer escapes what JSON requires
and nothing else. -/

namespace LogosViewRuntime

namespace Json

def hexDigit (n : ℕ) : Char := if n < 10 then Char.ofNat (48 + n) else Char.ofNat (87 + n)

/-- One character of a JSON string, as `QJsonDocument::toJson` writes it. -/
def escapeChar (c : Char) : List Char :=
  if c = '"' then ['\\', '"']
  else if c = '\\' then ['\\', '\\']
  else if c.toNat = 8 then ['\\', 'b']
  else if c.toNat = 12 then ['\\', 'f']
  else if c = '\n' then ['\\', 'n']
  else if c = '\r' then ['\\', 'r']
  else if c = '\t' then ['\\', 't']
  else if c.toNat < 32 then ['\\', 'u', '0', '0', hexDigit (c.toNat / 16), hexDigit (c.toNat % 16)]
  else [c]

def quote (s : String) : List Char := '"' :: s.toList.flatMap escapeChar ++ ['"']

def member (key value : String) : List Char := quote key ++ ':' :: quote value

/-- A compact object of string members. -/
def object (members : List (String × String)) : String :=
  String.ofList ('\x7b' :: [','].intercalate (members.map fun m => member m.1 m.2) ++ ['\x7d'])

end Json

/-- `detail` is the member `message`; an empty module, method or detail is left out. -/
def makeErrorPayload (error : String) (module method detail : String := "") : String :=
  Json.object <| ("error", error) ::
    [("message", detail), ("method", method), ("module", module)].filter fun m => m.2 ≠ ""

/-- The web half's copy. -/
def logosWebErrorPayload (error : String) (module method detail : String := "") : String :=
  makeErrorPayload error module method detail

example : makeErrorPayload "timeout" "wallet" "send" =
    "\x7b\"error\":\"timeout\",\"method\":\"send\",\"module\":\"wallet\"\x7d" := by decide

end LogosViewRuntime
