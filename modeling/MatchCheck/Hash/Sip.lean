/-!
# SipHash-1-3

The keyed hash function SipHash with one round for each word of the message and three rounds at the
end, under the key of two zero words. A message is a sequence of bytes; it is cut into words of
eight bytes, least significant byte first, and the last word carries the length of the message in
its top byte.
-/

namespace MatchCheck.Hash

/-- The four words of a hash in progress. -/
structure SipState where
  v0 : UInt64
  v1 : UInt64
  v2 : UInt64
  v3 : UInt64
deriving DecidableEq, Repr

namespace SipState

/-- The state before any message, under the zero key. -/
def initial : SipState :=
  ⟨0x736f6d6570736575, 0x646f72616e646f6d, 0x6c7967656e657261, 0x7465646279746573⟩

/-- A word turned left by some bits. -/
def rotateLeft (x : UInt64) (bits : UInt64) : UInt64 :=
  (x <<< bits) ||| (x >>> (64 - bits))

/-- One round of mixing. -/
def round (s : SipState) : SipState :=
  let v0 := s.v0 + s.v1
  let v1 := rotateLeft s.v1 13 ^^^ v0
  let v0 := rotateLeft v0 32
  let v2 := s.v2 + s.v3
  let v3 := rotateLeft s.v3 16 ^^^ v2
  let v0 := v0 + v3
  let v3 := rotateLeft v3 21 ^^^ v0
  let v2 := v2 + v1
  let v1 := rotateLeft v1 17 ^^^ v2
  let v2 := rotateLeft v2 32
  ⟨v0, v1, v2, v3⟩

/-- Takes in one word of the message. -/
def absorb (s : SipState) (word : UInt64) : SipState :=
  let s := round { s with v3 := s.v3 ^^^ word }
  { s with v0 := s.v0 ^^^ word }

/-- The hash of what was taken in. -/
def finish (s : SipState) : UInt64 :=
  let s := { s with v2 := s.v2 ^^^ 0xff }
  let s := s.round.round.round
  s.v0 ^^^ s.v1 ^^^ s.v2 ^^^ s.v3

end SipState

/-- The word of up to eight bytes, the least significant first. -/
def wordOfBytes (bytes : List UInt8) : UInt64 :=
  bytes.foldr (fun b w => (w <<< 8) ||| b.toUInt64) 0

/-- The eight bytes of a word, the least significant first. -/
def bytesOfWord (word : UInt64) : List UInt8 :=
  (List.range 8).map fun i => (word >>> (8 * i.toUInt64)).toUInt8

/-- Takes in a message of the given length. -/
def absorbBytes (length : Nat) (s : SipState) : List UInt8 → SipState
  | b0 :: b1 :: b2 :: b3 :: b4 :: b5 :: b6 :: b7 :: rest =>
    absorbBytes length (s.absorb (wordOfBytes [b0, b1, b2, b3, b4, b5, b6, b7])) rest
  | rest => s.absorb (wordOfBytes rest ||| (UInt64.ofNat length <<< 56))

/-- The hash of a message. -/
def sip (message : List UInt8) : UInt64 :=
  (absorbBytes message.length .initial message).finish

/-- The hash of a text: of its bytes, closed by a byte that occurs in no text. -/
def ofText (s : String) : UInt64 :=
  sip (s.toUTF8.toList ++ [0xff])

/-- The hash of words, each taken as eight bytes. -/
def ofWords (words : List UInt64) : UInt64 :=
  sip (words.flatMap bytesOfWord)

end MatchCheck.Hash
