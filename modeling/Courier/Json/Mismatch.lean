import Courier.Json
/-!
# Values of an expected type in a JSON tree

Reading numbers, texts, lists and maps off a JSON tree. A `Mismatch` says how the tree differs
from what is wanted.
-/

namespace Courier.Json

/-- How a tree differs from the type that is wanted. -/
inductive Mismatch where
  | wrongType (found : Json) (wanted : String)
  | outOfRange (found : Int) (wanted : String)
  | missingField (name : String)
  | wrongLength (found : Nat) (wanted : String)
  | nonStringKey

def Mismatch.message : Mismatch → String
  | wrongType found wanted => "invalid type: " ++ found.description ++ ", expected " ++ wanted
  | outOfRange found wanted =>
    "invalid value: integer `" ++ toString found ++ "`, expected " ++ wanted
  | missingField name => "missing field `" ++ name ++ "`"
  | wrongLength found wanted => "invalid length " ++ toString found ++ ", expected " ++ wanted
  | nonStringKey => "key must be a string"

def noMoreItems : String := "fewer elements in array"

def asText : Json → Except Mismatch String
  | string s => .ok s
  | found => .error (.wrongType found "a string")

def asWord (width : Nat) (found : Json) : Except Mismatch Nat :=
  let wanted := "u" ++ toString width
  match found with
  | integer n =>
    if 0 ≤ n ∧ n.toNat < 1 <<< width then .ok n.toNat else .error (.outOfRange n wanted)
  | _ => .error (.wrongType found wanted)

def asList {α : Type} (item : Json → Except Mismatch α) : Json → Except Mismatch (List α)
  | array items => items.mapM item
  | found => .error (.wrongType found "a sequence")

def asMembers {α : Type} (value : Json → Except Mismatch α) :
    Json → Except Mismatch (List (String × α))
  | object members => members.mapM fun m => do return (m.1, ← value m.2)
  | found => .error (.wrongType found "a map")

end Courier.Json
