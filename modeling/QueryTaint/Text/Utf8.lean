/-!
# Reading bytes that may not be UTF-8

`pieces` divides a byte string into characters and maximal invalid sequences. Two readings are
built on it: `decodeInPlace` writes one stand-in for every invalid byte, so that no later byte
moves, and `decodeLossy` writes one replacement character for every invalid sequence.
-/

namespace QueryTaint.Utf8

/-- What the first byte of a sequence of several bytes asks for: the bounds of the second byte,
how many continuation bytes follow the second, and the bits that the first byte contributes. -/
structure Lead where
  low : Nat
  high : Nat
  more : Nat
  bits : Nat

/-- The requirements of a first byte, none when no sequence of several bytes starts with it. The
bounds of the second byte leave out overlong forms, surrogates and what lies above U+10FFFF. -/
def Lead.of? (byte : Nat) : Option Lead :=
  if byte < 0xC2 then none
  else if byte < 0xE0 then some ⟨0x80, 0xBF, 0, byte - 0xC0⟩
  else if byte < 0xF0 then
    some ⟨if byte = 0xE0 then 0xA0 else 0x80, if byte = 0xED then 0x9F else 0xBF, 1, byte - 0xE0⟩
  else if byte < 0xF5 then
    some ⟨if byte = 0xF0 then 0x90 else 0x80, if byte = 0xF4 then 0x8F else 0xBF, 2, byte - 0xF0⟩
  else none

/-- One piece of a byte string: a character, or an invalid sequence of some bytes. -/
inductive Piece where
  | char (c : Char)
  | invalid (bytes : Nat)
deriving DecidableEq

/-- Reads continuation bytes within the given bounds, the first within its own. The answer is
the accumulated code point once `more` is used up, or the number of bytes that were accepted. -/
def continuation (low high : Nat) (more : Nat) (code taken : Nat) :
    List UInt8 → Piece × Nat
  | [] => (.invalid taken, taken)
  | byte :: rest =>
    if low ≤ byte.toNat ∧ byte.toNat ≤ high then
      let code := code * 64 + (byte.toNat - 0x80)
      match more with
      | 0 => (.char (Char.ofNat code), taken + 1)
      | more + 1 => continuation 0x80 0xBF more code (taken + 1) rest
    else (.invalid taken, taken)

/-- The first piece of a byte string that starts with `byte`, and how many bytes it has. -/
def firstPiece (byte : UInt8) (rest : List UInt8) : Piece × Nat :=
  if byte.toNat < 0x80 then (.char (Char.ofNat byte.toNat), 1)
  else match Lead.of? byte.toNat with
    | none => (.invalid 1, 1)
    | some lead => continuation lead.low lead.high lead.more lead.bits 1 rest

/-- The pieces of a byte string from left to right. -/
def pieces : List UInt8 → List Piece
  | [] => []
  | byte :: rest =>
    let (piece, size) := firstPiece byte rest
    piece :: pieces (rest.drop (size - 1))
termination_by bytes => bytes.length
decreasing_by simp only [List.length_drop, List.length_cons]; omega

/-- The character written for each byte of an invalid sequence. It may stand in a name, so that
a name with such bytes stays one name. -/
def standIn : Char := '_'

/-- The characters of a piece, as many bytes long as the piece. -/
def Piece.inPlace : Piece → List Char
  | .char c => [c]
  | .invalid bytes => List.replicate bytes standIn

/-- The character of a piece, U+FFFD for an invalid sequence. -/
def Piece.lossy : Piece → Char
  | .char c => c
  | .invalid _ => '\uFFFD'

/-- A text read from bytes, and whether the bytes were UTF-8 already. -/
structure Decoded where
  text : String
  valid : Bool

/-- The text of a byte string with every byte at its offset: valid UTF-8 is kept as it is, and
each byte of an invalid sequence is read as `standIn`. -/
def decodeInPlace (bytes : ByteArray) : Decoded :=
  match String.fromUTF8? bytes with
  | some text => ⟨text, true⟩
  | none => ⟨String.ofList ((pieces bytes.toList).flatMap Piece.inPlace), false⟩

/-- The text of a byte string with one U+FFFD for every invalid sequence. -/
def decodeLossy (bytes : ByteArray) : String :=
  match String.fromUTF8? bytes with
  | some text => text
  | none => String.ofList ((pieces bytes.toList).map Piece.lossy)

end QueryTaint.Utf8
