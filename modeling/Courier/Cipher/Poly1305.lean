import Courier.Bytes
/-!
# The Poly1305 authenticator

The tag of a message under a one-time key of 32 bytes: the value of a polynomial, whose
coefficients are the message's 16-byte groups, modulo `2 ^ 130 - 5` (RFC 8439).
-/

namespace Courier.Cipher.Poly1305

def modulus : Nat := (1 <<< 130) - 5

def clamp (r : Nat) : Nat :=
  r &&& 0x0FFFFFFC0FFFFFFC0FFFFFFC0FFFFFFF

/-- Absorbs a message, 16 bytes at a time, each group with a one set above its last byte. -/
def absorb (r accumulator : Nat) : (message : Bytes) → Nat
  | [] => accumulator
  | b :: rest =>
    let group := b :: rest.take 15
    absorb r ((accumulator + Bytes.ofLittleEndian (group ++ [1])) * r % modulus) (rest.drop 15)
  termination_by message => message.length
  decreasing_by
    simp only [List.length_drop, List.length_cons]
    omega

def tag (key message : Bytes) : Bytes :=
  let r := clamp (Bytes.ofLittleEndian (key.take 16))
  let s := Bytes.ofLittleEndian ((key.drop 16).take 16)
  Bytes.littleEndian 16 (absorb r 0 message + s)

@[simp] theorem length_tag (key message : Bytes) : (tag key message).length = 16 := by
  simp [tag]

end Courier.Cipher.Poly1305
