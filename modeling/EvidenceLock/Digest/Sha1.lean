/-
  The SHA-1 digest. A message is padded to whole blocks of 64 bytes; each block
  is expanded to eighty words and folded into a state of five.
-/

namespace EvidenceLock.Digest.Sha1

/-- The chaining state. -/
structure State where
  /-- The first word. -/
  a : UInt32
  /-- The second word. -/
  b : UInt32
  /-- The third word. -/
  c : UInt32
  /-- The fourth word. -/
  d : UInt32
  /-- The fifth word. -/
  e : UInt32
  deriving DecidableEq, Repr

/-- The state before the first block. -/
def State.start : State :=
  { a := 0x67452301, b := 0xEFCDAB89, c := 0x98BADCFE, d := 0x10325476, e := 0xC3D2E1F0 }

/-- Rotation to the left by fewer than 32 bits. -/
def rotate (x : UInt32) (n : UInt32) : UInt32 := (x <<< n) ||| (x >>> (32 - n))

/-- The message followed by the bit 1, zeros, and its length in bits as 64 bits. -/
def pad (message : List UInt8) : List UInt8 :=
  let n := message.length
  let zeros := (119 - n % 64) % 64
  message ++ 0x80 :: List.replicate zeros 0 ++
    (List.range 8).reverse.map fun i => UInt8.ofNat (8 * n / Nat.pow 256 i)

/-- Four bytes as a word, most significant first. -/
def wordOf (bytes : List UInt8) : UInt32 :=
  bytes.foldl (fun w b => (w <<< 8) ||| b.toUInt32) 0

/-- The words of a block. -/
def words : List UInt8 → List UInt32
  | a :: b :: c :: d :: rest => wordOf [a, b, c, d] :: words rest
  | _ => []

/-- The eighty words of a block: sixteen of its own, then each from four before it. -/
def schedule (block : List UInt32) : Array UInt32 :=
  (List.range 64).foldl
    (fun w i => w.push
      (rotate (w[i + 13]?.getD 0 ^^^ w[i + 8]?.getD 0 ^^^ w[i + 2]?.getD 0 ^^^ w[i]?.getD 0) 1))
    block.toArray

/-- The mixing function and constant of a round. -/
def mix (round : Nat) (b c d : UInt32) : UInt32 × UInt32 :=
  if round < 20 then ((b &&& c) ||| ((~~~ b) &&& d), 0x5A827999)
  else if round < 40 then (b ^^^ c ^^^ d, 0x6ED9EBA1)
  else if round < 60 then ((b &&& c) ||| (b &&& d) ||| (c &&& d), 0x8F1BBCDC)
  else (b ^^^ c ^^^ d, 0xCA62C1D6)

/-- One round. -/
def step (s : State) (round : Nat) (word : UInt32) : State :=
  let (f, k) := mix round s.b s.c s.d
  { a := rotate s.a 5 + f + s.e + k + word, b := s.a, c := rotate s.b 30, d := s.c, e := s.d }

/-- One block folded into the state. -/
def compress (s : State) (block : List UInt32) : State :=
  let w := schedule block
  let t := (List.range 80).foldl (fun t i => step t i (w[i]?.getD 0)) s
  { a := s.a + t.a, b := s.b + t.b, c := s.c + t.c, d := s.d + t.d, e := s.e + t.e }

/-- The blocks of a word sequence, `count` of them. -/
def blocks : Nat → List UInt32 → List (List UInt32)
  | 0, _ => []
  | count + 1, ws => ws.take 16 :: blocks count (ws.drop 16)

/-- The state after a whole message. -/
def digest (message : List UInt8) : State :=
  let ws := words (pad message)
  (blocks (ws.length / 16) ws).foldl compress State.start

/-- Eight lower-case hexadecimal digits of a word. -/
def hexWord (w : UInt32) : List Char :=
  (List.range 8).reverse.map fun i => Nat.digitChar (w.toNat / Nat.pow 16 i % 16)

/-- The forty hexadecimal digits of the digest of a text's UTF-8 bytes. -/
def hexDigest (s : String) : List Char :=
  let t := digest s.toUTF8.toList
  hexWord t.a ++ hexWord t.b ++ hexWord t.c ++ hexWord t.d ++ hexWord t.e

end EvidenceLock.Digest.Sha1
