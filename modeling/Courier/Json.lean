import Courier.Binary64.Shortest
import Courier.Text
import Courier.Text.Quoted
/-!
# JSON values

A `Json` is a tree of values. The members of an object are kept in ascending order of their names,
each name once. A number is an integer of 64 bits, signed or unsigned, or a finite double.
-/

namespace Courier

inductive Json where
  | null
  | bool (value : Bool)
  | integer (value : Int)
  | float (value : Binary64)
  | string (value : String)
  | array (items : List Json)
  | object (members : List (String × Json))

namespace Json

/-- Floats are plain from the fifth place behind the point up to sixteen digits before it, whole
ones end in `.0`, and an exponent always has a sign. -/
def floatLayout : Binary64.Layout := ⟨-5, 15, ".0", "e-", "e+"⟩

def description : Json → String
  | null => "null"
  | bool value => "boolean `" ++ (if value then "true" else "false") ++ "`"
  | integer value => "integer `" ++ toString value ++ "`"
  | float value => "floating point `" ++ value.render floatLayout ++ "`"
  | string value => "string " ++ Text.quoted value
  | array _ => "sequence"
  | object _ => "map"

end Json

end Courier
