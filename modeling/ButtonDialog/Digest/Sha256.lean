/-! The SHA-256 digest of a list of bytes.

    The message is padded to whole blocks of sixteen words, and each block is mixed into a state of
    eight words by sixty-four rounds. The words of the schedule are kept in a window of sixteen that
    slides by one word a round. The digest is the last state, thirty-two bytes. -/

namespace ButtonDialog.Sha256

/-- The eight words that the rounds turn. -/
structure State where
  a : UInt32
  b : UInt32
  c : UInt32
  d : UInt32
  e : UInt32
  f : UInt32
  g : UInt32
  h : UInt32

/-- The fractional parts of the square roots of the first eight primes. -/
def State.start : State :=
  ⟨0x6a09e667, 0xbb67ae85, 0x3c6ef372, 0xa54ff53a, 0x510e527f, 0x9b05688c, 0x1f83d9ab, 0x5be0cd19⟩

/-- The fractional parts of the cube roots of the first sixty-four primes, one a round. -/
def roundConstants : List UInt32 :=
  [0x428a2f98, 0x71374491, 0xb5c0fbcf, 0xe9b5dba5, 0x3956c25b, 0x59f111f1, 0x923f82a4, 0xab1c5ed5,
   0xd807aa98, 0x12835b01, 0x243185be, 0x550c7dc3, 0x72be5d74, 0x80deb1fe, 0x9bdc06a7, 0xc19bf174,
   0xe49b69c1, 0xefbe4786, 0x0fc19dc6, 0x240ca1cc, 0x2de92c6f, 0x4a7484aa, 0x5cb0a9dc, 0x76f988da,
   0x983e5152, 0xa831c66d, 0xb00327c8, 0xbf597fc7, 0xc6e00bf3, 0xd5a79147, 0x06ca6351, 0x14292967,
   0x27b70a85, 0x2e1b2138, 0x4d2c6dfc, 0x53380d13, 0x650a7354, 0x766a0abb, 0x81c2c92e, 0x92722c85,
   0xa2bfe8a1, 0xa81a664b, 0xc24b8b70, 0xc76c51a3, 0xd192e819, 0xd6990624, 0xf40e3585, 0x106aa070,
   0x19a4c116, 0x1e376c08, 0x2748774c, 0x34b0bcb5, 0x391c0cb3, 0x4ed8aa4a, 0x5b9cca4f, 0x682e6ff3,
   0x748f82ee, 0x78a5636f, 0x84c87814, 0x8cc70208, 0x90befffa, 0xa4506ceb, 0xbef9a3f7, 0xc67178f2]

/-- A word turned right by `n` bits, `n` below thirty-two. -/
def turn (x n : UInt32) : UInt32 := (x >>> n) ||| (x <<< (32 - n))

/-- The word that enters the window when its first word leaves. -/
def nextWord (window : List UInt32) : UInt32 :=
  let early := window.getD 1 0
  let late := window.getD 14 0
  let smallEarly := turn early 7 ^^^ turn early 18 ^^^ (early >>> 3)
  let smallLate := turn late 17 ^^^ turn late 19 ^^^ (late >>> 10)
  smallLate + window.getD 9 0 + smallEarly + window.getD 0 0

/-- One round with constant `k` and schedule word `w`. -/
def State.turnOver (s : State) (k w : UInt32) : State :=
  let mixE := turn s.e 6 ^^^ turn s.e 11 ^^^ turn s.e 25
  let choice := (s.e &&& s.f) ^^^ ((s.e ^^^ 0xffffffff) &&& s.g)
  let first := s.h + mixE + choice + k + w
  let mixA := turn s.a 2 ^^^ turn s.a 13 ^^^ turn s.a 22
  let majority := (s.a &&& s.b) ^^^ (s.a &&& s.c) ^^^ (s.b &&& s.c)
  ⟨first + mixA + majority, s.a, s.b, s.c, s.d + first, s.e, s.f, s.g⟩

/-- One round, with the window of the schedule. -/
def round (now : State × List UInt32) (k : UInt32) : State × List UInt32 :=
  (now.1.turnOver k (now.2.getD 0 0), now.2.drop 1 ++ [nextWord now.2])

/-- The state after a block of sixteen words. -/
def State.absorb (s : State) (block : List UInt32) : State :=
  let t := (roundConstants.foldl round (s, block)).1
  ⟨s.a + t.a, s.b + t.b, s.c + t.c, s.d + t.d, s.e + t.e, s.f + t.f, s.g + t.g, s.h + t.h⟩

/-- The message, a one bit, zeros, and the length in bits, to a multiple of sixty-four bytes. -/
def padded (message : List UInt8) : List UInt8 :=
  let bits := 8 * message.length
  message ++ 0x80 :: (List.replicate ((119 - message.length % 64) % 64) 0 ++
    [56, 48, 40, 32, 24, 16, 8, 0].map fun (shift : Nat) => UInt8.ofNat (bits >>> shift))

/-- Four bytes make a word, the first one highest. -/
def words : List UInt8 → List UInt32
  | b :: b' :: b'' :: b''' :: bytes =>
    ((b.toUInt32 <<< 24) ||| (b'.toUInt32 <<< 16) ||| (b''.toUInt32 <<< 8) ||| b'''.toUInt32) ::
      words bytes
  | _ => []

/-- Takes a word into the pending block, and the block into the state once it has sixteen. -/
def take (now : State × List UInt32) (w : UInt32) : State × List UInt32 :=
  let block := now.2 ++ [w]
  if block.length = 16 then (now.1.absorb block, []) else (now.1, block)

/-- The four bytes of a word, the highest first. -/
def wordBytes (w : UInt32) : List UInt8 :=
  [(w >>> 24).toUInt8, (w >>> 16).toUInt8, (w >>> 8).toUInt8, w.toUInt8]

/-- The bytes of a state. -/
def State.bytes (s : State) : List UInt8 :=
  wordBytes s.a ++ wordBytes s.b ++ wordBytes s.c ++ wordBytes s.d ++
    wordBytes s.e ++ wordBytes s.f ++ wordBytes s.g ++ wordBytes s.h

/-- The digest of a message. -/
def digest (message : List UInt8) : List UInt8 :=
  ((words (padded message)).foldl take (State.start, [])).1.bytes

/-- A digest has thirty-two bytes, whatever the message. -/
@[simp] theorem length_digest (message : List UInt8) : (digest message).length = 32 := rfl

end ButtonDialog.Sha256
