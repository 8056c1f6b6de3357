import Courier.Transport.Source
/-!
# Decoders as sequences of reads

An `Intake` is a decoder that says how many bytes of which segment it wants next, and how it goes
on with them. It can be run on a source (`Intake.run`) and on a plain byte string
(`Intake.runBytes`), and says of itself where it stands when the bytes end.
-/

namespace Courier

/-- A decoder as the sequence of its exact reads. -/
inductive Intake (α : Type) where
  | done (value : α)
  | fail (cause : WireError)
  | read (segment : Segment) (size : Nat) (next : Bytes → Intake α)

namespace Intake

def bind {α β : Type} : Intake α → (α → Intake β) → Intake β
  | done value, f => f value
  | fail cause, _ => fail cause
  | read segment size next, f => read segment size fun bytes => (next bytes).bind f

instance : Monad Intake where
  pure := done
  bind := bind

def take (segment : Segment) (size : Nat) : Intake Bytes :=
  read segment size done

def ofExcept {α : Type} : Except WireError α → Intake α
  | .ok value => done value
  | .error cause => fail cause

/-- The failure when the bytes of a segment end after `received` of the `size` wanted. -/
def shortage (segment : Segment) (size received : Nat) : TransportError :=
  match segment with
  | .header => ⟨.unexpectedEof, some "failed to fill whole buffer"⟩
  | _ => ⟨.unexpectedEof,
      some ("expected " ++ toString size ++ " bytes, stream ended after " ++ toString received)⟩

def run {α : Type} : Intake α → Source → Except WireError α × Source
  | done value, s => (.ok value, s)
  | fail cause, s => (.error cause, s)
  | read segment size next, s =>
    match s.readExactly size with
    | (.full bytes, s) => (next bytes).run s
    | (.ended received, s) => (.error (.transport segment (shortage segment size received)), s)
    | (.failed cause, s) => (.error (.transport segment cause), s)

def runBytes {α : Type} : Intake α → Bytes → Except WireError α × Bytes
  | done value, bytes => (.ok value, bytes)
  | fail cause, bytes => (.error cause, bytes)
  | read segment size next, bytes =>
    match Bytes.takeExactly size bytes with
    | some (front, rest) => (next front).runBytes rest
    | none => (.error (.transport segment (shortage segment size bytes.length)), [])

/-- Whether the byte string ends before the decoder has what it wants. -/
def wantsMore {α : Type} : Intake α → Bytes → Bool
  | done _, _ => false
  | fail _, _ => false
  | read _ size next, bytes =>
    match Bytes.takeExactly size bytes with
    | some (front, rest) => (next front).wantsMore rest
    | none => true

end Intake

end Courier
