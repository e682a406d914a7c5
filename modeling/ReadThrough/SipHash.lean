import ReadThrough.Bytes

/-!
# SipHash

SipHash-1-3 of a byte string under the all-zero key. The state is four words; every eight message
bytes are mixed in by one round, the last word carries the remaining bytes and the length of the
message, and three more rounds finish.
-/

namespace ReadThrough.SipHash

/-- The four words of the running hash. -/
structure State where
  v0 : UInt64
  v1 : UInt64
  v2 : UInt64
  v3 : UInt64

/-- The state before any message byte, under the all-zero key. -/
def State.start : State :=
  ⟨0x736f6d6570736575, 0x646f72616e646f6d, 0x6c7967656e657261, 0x7465646279746573⟩

/-- The word `x` turned left by `n` bits, where `n` is between 1 and 63. -/
def rotate (x n : UInt64) : UInt64 := (x <<< n) ||| (x >>> (64 - n))

/-- One round of additions, rotations and exclusive ors. -/
def State.round (s : State) : State :=
  let v0 := s.v0 + s.v1
  let v1 := rotate s.v1 13 ^^^ v0
  let v0 := rotate v0 32
  let v2 := s.v2 + s.v3
  let v3 := rotate s.v3 16 ^^^ v2
  let v0 := v0 + v3
  let v3 := rotate v3 21 ^^^ v0
  let v2 := v2 + v1
  let v1 := rotate v1 17 ^^^ v2
  let v2 := rotate v2 32
  ⟨v0, v1, v2, v3⟩

/-- Mixes in one message word. -/
def State.absorbWord (s : State) (word : UInt64) : State :=
  let s := State.round { s with v3 := s.v3 ^^^ word }
  { s with v0 := s.v0 ^^^ word }

/-- The word with the given bytes, least significant first. -/
def wordOf (bytes : Bytes) : UInt64 := (Bytes.ofLittleEndian bytes).toUInt64

/-- Mixes in the whole words of the message and gives back the bytes that are left. -/
def State.absorb (s : State) : Bytes → State × Bytes
  | b0 :: b1 :: b2 :: b3 :: b4 :: b5 :: b6 :: b7 :: rest =>
    (s.absorbWord (wordOf [b0, b1, b2, b3, b4, b5, b6, b7])).absorb rest
  | tail => (s, tail)

/-- The hash value of a state that has seen the whole message. -/
def State.finish (s : State) : UInt64 :=
  let s := State.round (State.round (State.round { s with v2 := s.v2 ^^^ 0xff }))
  s.v0 ^^^ s.v1 ^^^ s.v2 ^^^ s.v3

/-- The SipHash-1-3 value of a message. -/
def hash (message : Bytes) : UInt64 :=
  let (s, tail) := State.start.absorb message
  (s.absorbWord (wordOf tail ||| (message.length.toUInt64 <<< 56))).finish

end ReadThrough.SipHash
