/-!
# Message ids

Requests are told apart by ids that one counter hands out. It starts at one and goes round after
the last 64-bit word, so that no id comes twice, and none is zero, before all the others have been
used.
-/

namespace Courier

/-- A counter of message ids. -/
structure MessageIds where
  next : UInt64 := 1
  deriving DecidableEq, Repr, Inhabited

namespace MessageIds

def take (ids : MessageIds) : UInt64 × MessageIds :=
  (ids.next, ⟨ids.next + 1⟩)

def takeMany : (count : Nat) → MessageIds → List UInt64 × MessageIds
  | 0, ids => ([], ids)
  | count + 1, ids =>
    let (id, ids) := ids.take
    let (later, ids) := takeMany count ids
    (id :: later, ids)

end MessageIds

end Courier
