import Courier.Cipher.ChaCha20
import Courier.Cipher.Poly1305
/-!
# Sealed payloads

Authenticated encryption by ChaCha20 and Poly1305 (RFC 8439). A sealed payload is the nonce, the
ciphertext and a tag that also covers the message id, so that it opens only under the key that
sealed it and in the message it was sealed for. The block counter has 32 bits, so that the cipher
takes less than `2 ^ 38 - 64` bytes; sealing is total here, and stands for it on those.
-/

namespace Courier.Cipher

def keySize : Nat := 32

def nonceSize : Nat := 12

def tagSize : Nat := 16

structure Key where
  bytes : Bytes
  length_eq : bytes.length = keySize
  deriving DecidableEq

structure Nonce where
  bytes : Bytes
  length_eq : bytes.length = nonceSize
  deriving DecidableEq

namespace Key

def ofBytes? (bytes : Bytes) : Option Key :=
  if h : bytes.length = keySize then some ⟨bytes, h⟩ else none

end Key

namespace Nonce

def ofCounter (n : Nat) : Nonce :=
  ⟨Bytes.littleEndian nonceSize n, Bytes.length_littleEndian _ _⟩

end Nonce

def padding (length : Nat) : Bytes :=
  List.replicate ((16 - length % 16) % 16) 0

/-- What the tag covers: associated data and ciphertext, each padded, and their lengths. -/
def covered (associated ciphertext : Bytes) : Bytes :=
  associated ++ padding associated.length ++ ciphertext ++ padding ciphertext.length ++
    Bytes.littleEndian 8 associated.length ++ Bytes.littleEndian 8 ciphertext.length

def tagOf (key nonce associated ciphertext : Bytes) : Bytes :=
  Poly1305.tag ((ChaCha20.block key nonce 0).take 32) (covered associated ciphertext)

def encrypt (key nonce associated plaintext : Bytes) : Bytes :=
  let ciphertext := ChaCha20.crypt key nonce plaintext
  ciphertext ++ tagOf key nonce associated ciphertext

def associatedData (id : UInt64) : Bytes :=
  Bytes.bigEndian 8 id.toNat

def sealPayload (key : Key) (nonce : Nonce) (id : UInt64) (plaintext : Bytes) : Bytes :=
  nonce.bytes ++ encrypt key.bytes nonce.bytes (associatedData id) plaintext

/-- The payload of a sealed form in the message of the given id, if its tag is right. -/
def openPayload? (key : Key) (id : UInt64) (sealedForm : Bytes) : Option Bytes :=
  if sealedForm.length < nonceSize + tagSize then none
  else
    let nonce := sealedForm.take nonceSize
    let body := sealedForm.drop nonceSize
    let ciphertext := body.take (body.length - tagSize)
    let tag := body.drop (body.length - tagSize)
    if tag = tagOf key.bytes nonce (associatedData id) ciphertext then
      some (ChaCha20.crypt key.bytes nonce ciphertext)
    else none

end Courier.Cipher
