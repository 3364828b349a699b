/-
  JSON values, as far as settings need them, and looking into them.
-/
import BasicListing.Text.Basic

namespace BasicListing.Json

/-- A JSON value.  Numbers that are not whole, or not from 0 to 2^64 - 1, are not told apart. -/
inductive Value where
  | null
  | bool (b : Bool)
  | whole (n : Nat)
  | otherNumber
  | string (s : Text)
  | array (items : List Value)
  | object (members : List (Text × Value))

namespace Value

/-- The member of an object with the given key; of several with one key the last counts. -/
def member? (v : Value) (key : Text) : Option Value :=
  match v with
  | .object members =>
    members.foldl (fun found entry => if entry.1 = key then some entry.2 else found) none
  | _ => none

/-- The truth value that a value is. -/
def bool? : Value → Option Bool
  | .bool b => some b
  | _ => none

/-- The whole number from 0 to 2^64 - 1 that a value is. -/
def whole? : Value → Option Nat
  | .whole n => some n
  | _ => none

end Value

end BasicListing.Json
