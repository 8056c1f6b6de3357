import Courier.Codec
import Courier.Header.Code
import Courier.Log
/-!
# Codec registries

A registry says which codec a serialization code stands for. Codes are bytes: a named code and a
custom one of the same byte are the same entry.
-/

namespace Courier

structure Registry where
  codecs : SortedMap UInt8 Codec

namespace Registry

def empty : Registry :=
  ⟨.empty⟩

def replacement (code : UInt8) (previous next : Codec) : Event where
  severity := .warn
  text := "Serialization type " ++ toString code.toNat ++ " re-registered: `" ++ previous.name ++
    "` replaced by `" ++ next.name ++ "`"
  fields := []

def lookup (r : Registry) (serialization : Serialization) : Option Codec :=
  r.codecs.get? serialization.code

def contains (r : Registry) (serialization : Serialization) : Bool :=
  (r.lookup serialization).isSome

/-- The registry with a codec for a serialization, together with the codec that it replaces and
the event of that. -/
def register (r : Registry) (serialization : Serialization) (codec : Codec) :
    Registry × Traced (Option Codec) :=
  let previous := r.lookup serialization
  let log := previous.toList.map fun p => replacement serialization.code p codec
  (⟨r.codecs.insert serialization.code codec⟩, ⟨previous, log⟩)

def add (r : Registry) (serialization : Serialization) (codec : Codec) : Registry :=
  (r.register serialization codec).1

def builtin : Registry :=
  (empty.add .json .json).add .binary .binary

def codes (r : Registry) : List UInt8 :=
  r.codecs.keys

def size (r : Registry) : Nat :=
  r.codecs.size

def isEmpty (r : Registry) : Bool :=
  r.codecs.isEmpty

def shape (r : Registry) : Shape :=
  .map (r.codecs.entries.map fun e => (.number e.1.toNat, .text e.2.name))

end Registry

end Courier
