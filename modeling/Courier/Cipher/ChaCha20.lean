import Courier.Bytes
/-!
# The ChaCha20 stream cipher

A key of 32 bytes, a nonce of 12 and a block counter make a block of 64 key stream bytes (RFC
8439). `crypt` adds the key stream to data bit by bit, which is its own inverse (`crypt_crypt`).
-/

namespace Courier.Cipher.ChaCha20

abbrev State := Vector UInt32 16

def rotate (w amount : UInt32) : UInt32 :=
  (w <<< amount) ||| (w >>> (32 - amount))

def quarterRound (s : State) (a b c d : Fin 16) : State :=
  let s := s.set a (s[a] + s[b])
  let s := s.set d (rotate (s[d] ^^^ s[a]) 16)
  let s := s.set c (s[c] + s[d])
  let s := s.set b (rotate (s[b] ^^^ s[c]) 12)
  let s := s.set a (s[a] + s[b])
  let s := s.set d (rotate (s[d] ^^^ s[a]) 8)
  let s := s.set c (s[c] + s[d])
  s.set b (rotate (s[b] ^^^ s[c]) 7)

def doubleRound (s : State) : State :=
  let s := quarterRound s 0 4 8 12
  let s := quarterRound s 1 5 9 13
  let s := quarterRound s 2 6 10 14
  let s := quarterRound s 3 7 11 15
  let s := quarterRound s 0 5 10 15
  let s := quarterRound s 1 6 11 12
  let s := quarterRound s 2 7 8 13
  quarterRound s 3 4 9 14

def rounds (s : State) : State :=
  doubleRound (doubleRound (doubleRound (doubleRound (doubleRound
    (doubleRound (doubleRound (doubleRound (doubleRound (doubleRound s)))))))))

def wordAt (bytes : Bytes) (i : Nat) : UInt32 :=
  UInt32.ofNat (Bytes.ofLittleEndian ((bytes.drop (4 * i)).take 4))

/-- The constants, the key, the block counter and the nonce. -/
def initial (key nonce : Bytes) (counter : UInt32) : State :=
  #v[0x61707865, 0x3320646E, 0x79622D32, 0x6B206574,
    wordAt key 0, wordAt key 1, wordAt key 2, wordAt key 3,
    wordAt key 4, wordAt key 5, wordAt key 6, wordAt key 7,
    counter, wordAt nonce 0, wordAt nonce 1, wordAt nonce 2]

def block (key nonce : Bytes) (counter : UInt32) : Bytes :=
  let start := initial key nonce counter
  (Vector.zipWith (· + ·) (rounds start) start).toList.flatMap fun w => Bytes.littleEndian 4 w.toNat

/-- At least `count` bytes of the key stream, from the second block on. -/
def keystream (key nonce : Bytes) (count : Nat) : Bytes :=
  (List.range ((count + 63) / 64)).flatMap fun i => block key nonce (UInt32.ofNat (i + 1))

def crypt (key nonce data : Bytes) : Bytes :=
  List.zipWith (· ^^^ ·) data (keystream key nonce data.length)

@[simp] theorem length_block (key nonce : Bytes) (counter : UInt32) :
    (block key nonce counter).length = 64 := by
  rw [block, Bytes.length_flatMap_of_forall fun _ => Bytes.length_littleEndian 4 _,
    Vector.length_toList]

theorem length_keystream (key nonce : Bytes) (count : Nat) :
    (keystream key nonce count).length = 64 * ((count + 63) / 64) := by
  rw [keystream, Bytes.length_flatMap_of_forall fun _ => length_block key nonce _,
    List.length_range]

@[simp] theorem length_crypt (key nonce data : Bytes) :
    (crypt key nonce data).length = data.length := by
  simp only [crypt, List.length_zipWith, length_keystream]
  omega

private theorem zipWith_xor_cancel (data stream : Bytes) (h : data.length ≤ stream.length) :
    List.zipWith (· ^^^ ·) (List.zipWith (· ^^^ ·) data stream) stream = data := by
  induction data generalizing stream with
  | nil => rfl
  | cons b rest ih =>
    cases stream with
    | nil => simp at h
    | cons k stream =>
      have hrest : rest.length ≤ stream.length := by simpa using h
      rw [List.zipWith_cons_cons, List.zipWith_cons_cons, ih stream hrest, UInt8.xor_assoc,
        UInt8.xor_self, UInt8.xor_zero]

theorem crypt_crypt (key nonce data : Bytes) : crypt key nonce (crypt key nonce data) = data := by
  rw [crypt, length_crypt, crypt]
  exact zipWith_xor_cancel data _ (by rw [length_keystream]; omega)

end Courier.Cipher.ChaCha20
