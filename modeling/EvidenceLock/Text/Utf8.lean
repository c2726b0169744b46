/-
  Reading bytes as UTF-8. `scan` cuts a byte sequence into characters and faults,
  where a fault is the longest start of a well-formed sequence that the bytes do
  not complete, or one byte that starts none. The lossy reading puts U+FFFD for
  every fault; the strict reading refuses the first one.
-/

namespace EvidenceLock.Text.Utf8

/-- What is wrong at a fault. -/
inductive Flaw where
  /-- The byte starts no sequence. -/
  | start
  /-- A byte that does not continue the sequence follows. -/
  | continuation
  /-- The text ends inside the sequence. -/
  | truncated
  deriving DecidableEq, Repr

/-- The flaw in words. -/
def Flaw.reason : Flaw → String
  | .start => "invalid start byte"
  | .continuation => "invalid continuation byte"
  | .truncated => "unexpected end of data"

/-- One piece of a byte sequence. -/
inductive Piece where
  /-- A well-formed sequence of the given number of bytes. -/
  | char (c : Char) (size : Nat)
  /-- A fault, with its bytes. -/
  | fault (flaw : Flaw) (bytes : List Nat)
  deriving DecidableEq, Repr

/-- The number of bytes after the first one, and the range of the second; nothing for a byte that
starts no sequence. -/
def shape? (b : Nat) : Option (Nat × Nat × Nat) :=
  if b < 0x80 then some (0, 0, 0)
  else if 0xC2 ≤ b ∧ b ≤ 0xDF then some (1, 0x80, 0xBF)
  else if b = 0xE0 then some (2, 0xA0, 0xBF)
  else if b = 0xED then some (2, 0x80, 0x9F)
  else if 0xE1 ≤ b ∧ b ≤ 0xEF then some (2, 0x80, 0xBF)
  else if b = 0xF0 then some (3, 0x90, 0xBF)
  else if 0xF1 ≤ b ∧ b ≤ 0xF3 then some (3, 0x80, 0xBF)
  else if b = 0xF4 then some (3, 0x80, 0x8F)
  else none

/-- The payload bits of a first byte that is followed by `more` others. -/
def leadBits (b more : Nat) : Nat :=
  match more with
  | 0 => b
  | 1 => b % 32
  | 2 => b % 16
  | _ => b % 8

/-- Continues a sequence that still needs `more` bytes, the next one within `lo`–`hi`. `seen` holds
the bytes read, last first, and `code` the character they stand for so far. -/
def continuation (seen : List Nat) (code : Nat) : Nat → Nat → Nat → List Nat → Piece
  | 0, _, _, _ => .char (Char.ofNat code) seen.length
  | _ + 1, _, _, [] => .fault .truncated seen.reverse
  | more + 1, lo, hi, b :: rest =>
    if lo ≤ b ∧ b ≤ hi then continuation (b :: seen) (code * 64 + b % 64) more 0x80 0xBF rest
    else .fault .continuation seen.reverse

/-- The piece at the start of `b :: rest`. -/
def pieceAt (b : Nat) (rest : List Nat) : Piece :=
  match shape? b with
  | none => .fault .start [b]
  | some (more, lo, hi) => continuation [b] (leadBits b more) more lo hi rest

/-- The number of bytes of a piece. -/
def Piece.size : Piece → Nat
  | .char _ n => n
  | .fault _ bs => bs.length

/-- The pieces of a byte sequence, each with the number of the byte it starts at. -/
def scan (bytes : List Nat) : List (Nat × Piece) := go 0 0 [] bytes
where
  /-- `skip` bytes belong to the piece before; `acc` holds the pieces so far, last first. -/
  go (at_ skip : Nat) (acc : List (Nat × Piece)) : List Nat → List (Nat × Piece)
    | [] => acc.reverse
    | b :: rest =>
      match skip with
      | skip + 1 => go (at_ + 1) skip acc rest
      | 0 =>
        let p := pieceAt b rest
        go (at_ + 1) (p.size - 1) ((at_, p) :: acc) rest

/-- The text with U+FFFD for every fault. -/
def decodeLossy (bytes : List Nat) : String :=
  String.ofList <| (scan bytes).map fun
    | (_, .char c _) => c
    | (_, .fault _ _) => Char.ofNat 0xFFFD

/-- Two lower-case hexadecimal digits of a byte. -/
def hexByte (b : Nat) : String :=
  String.ofList [Nat.digitChar (b / 16 % 16), Nat.digitChar (b % 16)]

/-- How a fault at a position is reported. -/
def faultMessage (position : Nat) (flaw : Flaw) (bytes : List Nat) : String :=
  match bytes with
  | [b] =>
    s!"'utf-8' codec can't decode byte 0x{hexByte b} in position {position}: {flaw.reason}"
  | _ =>
    s!"'utf-8' codec can't decode bytes in position {position}-{position + bytes.length - 1}: " ++
      flaw.reason

/-- The text, or a report of the first fault. -/
def decodeStrict (bytes : List Nat) : Except String String :=
  let pieces := scan bytes
  match pieces.findSome? (fun
      | (n, .fault flaw bs) => some (faultMessage n flaw bs)
      | _ => none) with
  | some message => .error message
  | none => .ok (decodeLossy bytes)

/-- The bytes of a text. -/
def encode (s : String) : List Nat := s.toUTF8.toList.map UInt8.toNat

/-- The number of bytes of a text. -/
def size (s : String) : Nat := s.utf8ByteSize

example : decodeLossy [0x65, 0xC3, 0xA9] = "eé" := by cbv
example : scan [0xE2, 0x82] = [(0, .fault .truncated [0xE2, 0x82])] := by decide
example : scan [0xC3, 0x28] = [(0, .fault .continuation [0xC3]), (1, .char '(' 1)] := by decide

end EvidenceLock.Text.Utf8
