import Courier.Crc32
import Courier.Deflate.Inflate
import Courier.Deflate.Compress
import Courier.Failure
/-!
# Gzip members

A member is a header, compressed data and a trailer with the checksum and the length of what was
compressed. `Gzip.compress` writes one; `Gzip.decompress` reads one off the front of a byte
string, up to a limit on its content, and checks the trailer unless the limit is passed.
-/

namespace Courier.Gzip

inductive Fault where
  | unexpectedEnd
  | invalidHeader
  | fieldTooLong
  | mismatch
  | incompleteData
  | corruptData
  deriving DecidableEq, Repr

/-- Why no content is returned: the member is damaged, or there is more content than wanted, of
which so many bytes were read. -/
inductive Refusal where
  | damaged (fault : Fault)
  | overLimit (size : Nat)
  deriving DecidableEq, Repr

def lead : Bytes := [0x1F, 0x8B, 0x08]

/-- The header bits with a meaning: a header checksum, extra data, a name and a comment. -/
structure Flags where
  checksum : Bool
  extra : Bool
  name : Bool
  comment : Bool

def Flags.ofByte? (b : UInt8) : Option Flags :=
  if b &&& 0xE0 ≠ 0 then none
  else some ⟨b &&& 0x02 ≠ 0, b &&& 0x04 ≠ 0, b &&& 0x08 ≠ 0, b &&& 0x10 ≠ 0⟩

def longestField : Nat := 65535

def take (n : Nat) (input : Bytes) : Except Fault (Bytes × Bytes) :=
  match Bytes.takeExactly n input with
  | some r => .ok r
  | none => .error .unexpectedEnd

def skipText : (room : Nat) → Bytes → Except Fault Bytes
  | _, [] => .error .unexpectedEnd
  | room, b :: rest =>
    if b = 0 then .ok rest
    else
      match room with
      | 0 => .error .fieldTooLong
      | room + 1 => skipText room rest

/-- Where the segments of the input are counted from, behind extra data that end at a place. Extra
data that fill the rest of the first segment and a whole one more are taken up at once, and a
segment begins behind them. -/
def segmentOrigin (place : Nat) : Nat :=
  if 2 * Deflate.segmentSize ≤ place then place else 0

structure Body where
  origin : Nat
  data : Bytes

def skipHeader (input : Bytes) : Except Fault Body := do
  let (fixed, rest) ← take 10 input
  if fixed.take 3 ≠ lead then
    throw .invalidHeader
  match Flags.ofByte? (fixed.getD 3 0) with
  | none => throw .invalidHeader
  | some flags =>
    let (origin, rest) ←
      if flags.extra then do
        let (size, rest) ← take 2 rest
        let (_, rest) ← take (Bytes.ofLittleEndian size) rest
        pure (segmentOrigin (12 + Bytes.ofLittleEndian size), rest)
      else pure (0, rest)
    let rest ← if flags.name then skipText longestField rest else pure rest
    let rest ← if flags.comment then skipText longestField rest else pure rest
    if flags.checksum then
      let header := input.take (input.length - rest.length)
      let (stored, rest) ← take 2 rest
      if UInt16.ofNat (Bytes.ofLittleEndian stored) ≠ (Crc32.checksum header).toUInt16 then
        throw .mismatch
      return ⟨origin, rest⟩
    else
      return ⟨origin, rest⟩

def trailer (content : Bytes) : Bytes :=
  Bytes.littleEndian 4 (Crc32.checksum content).toNat ++ Bytes.littleEndian 4 content.length

def checkTrailer (content rest : Bytes) : Except Fault Unit := do
  let (stored, _) ← take 8 rest
  if stored ≠ trailer content then
    throw .mismatch

/-- Reads a member off the front of a byte string. -/
def decompress (limit : Nat) (input : Bytes) : Except Refusal Bytes :=
  match skipHeader input with
  | .error fault => .error (.damaged fault)
  | .ok body =>
    match Deflate.inflate limit (input.length - body.data.length - body.origin) body.data with
    | .error .incomplete => .error (.damaged .incompleteData)
    | .error .corrupt => .error (.damaged .corruptData)
    | .error (.overLimit size) => .error (.overLimit size)
    | .ok (content, rest) =>
      match checkTrailer content rest with
      | .error fault => .error (.damaged fault)
      | .ok () => .ok content

def levelHint (level : Nat) : UInt8 :=
  if 9 ≤ level then 2 else if level ≤ 1 then 4 else 0

def header (level : Nat) : Bytes :=
  lead ++ [0, 0, 0, 0, 0, levelHint level, 0xFF]

def compress (level : Nat) (content : Bytes) : Bytes :=
  header level ++ Deflate.deflate level content ++ trailer content

def Fault.transportError : Fault → TransportError
  | unexpectedEnd => ⟨.unexpectedEof, none⟩
  | invalidHeader => ⟨.invalidInput, some "invalid gzip header"⟩
  | fieldTooLong => ⟨.invalidInput, some "gzip header field too long"⟩
  | mismatch => ⟨.invalidInput, some "corrupt gzip stream does not have a matching checksum"⟩
  | incompleteData => ⟨.unexpectedEof, some "incomplete deflate stream"⟩
  | corruptData => ⟨.invalidInput, some "corrupt deflate stream"⟩

end Courier.Gzip
