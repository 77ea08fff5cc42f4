import Mathlib.Data.List.AList

/-! # Values that cross the bridges

`QVariant` as far as the bridges look into it: the payload types the intent rules name, the two
containers, the engine-bound `QJSValue` and everything else by its metatype id.  A `QVariantMap`
is a `QMap`, so it is kept as its key-value pairs in ascending key order (`QVariantMap.insert`).

A `QHash` is an association list with distinct keys.  Its iteration order is not specified, so
no definition reads the order of the list: a loop over the keys is handed its order from outside
and only has to be handed a permutation of the keys. -/

namespace LogosViewRuntime

/-- A JavaScript value: which one it is, and what `isCallable` answers. -/
structure QJSValue where
  handle : ℕ
  isCallable : Bool
deriving DecidableEq, Repr

inductive QVariant where
  | invalid
  | bool (b : Bool)
  | int (n : ℤ)
  | longLong (n : ℤ)
  | double (bits : BitVec 64)
  | string (s : String)
  | list (l : List QVariant)
  | map (m : List (String × QVariant))
  | jsValue (v : QJSValue)
  | other (typeId : ℕ)
deriving Inhabited

abbrev QVariantMap := List (String × QVariant)

/-- `QMap::insert`: replace the value of a key, or put it where the key order wants it. -/
def QVariantMap.insert (key : String) (value : QVariant) : QVariantMap → QVariantMap
  | [] => [(key, value)]
  | (k, v) :: m =>
      if key = k then (key, value) :: m
      else if key < k then (key, value) :: (k, v) :: m
      else (k, v) :: QVariantMap.insert key value m

abbrev QHash (κ : Type) [DecidableEq κ] (β : Type) := AList (fun _ : κ => β)

/-! ### The intent vocabulary -/

def errUnavailable : String := "unavailable"

/-- `{ ok, data, error }`: no error on success and no data on failure. -/
def makeEnvelope (ok : Bool) (data : QVariant) (error : String) : QVariantMap :=
  let envelope : QVariantMap := QVariantMap.insert "ok" (.bool ok) []
  let envelope := QVariantMap.insert "data" (if ok then data else .invalid) envelope
  QVariantMap.insert "error" (.string (if ok then "" else error)) envelope

end LogosViewRuntime
