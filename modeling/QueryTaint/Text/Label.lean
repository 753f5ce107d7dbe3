import QueryTaint.Text.Character

/-!
# Generated names

Labels for compiled loops and names for functions without one are counted per file. A label
carries a hash of the file's path, so that labels of different files differ and every run makes
the same ones. The hash is SipHash-1-3 with the key zero.
-/

namespace QueryTaint

namespace SipHash

/-- The four words of the hash's state. -/
structure State where
  v0 : UInt64
  v1 : UInt64
  v2 : UInt64
  v3 : UInt64

/-- The word rotated to the left. -/
def rotl (x : UInt64) (n : UInt64) : UInt64 := (x <<< n) ||| (x >>> (64 - n))

/-- The state for the key zero. -/
def State.init : State :=
  ⟨0x736f6d6570736575, 0x646f72616e646f6d, 0x6c7967656e657261, 0x7465646279746573⟩

/-- One round. -/
def State.round (s : State) : State :=
  let v0 := s.v0 + s.v1
  let v1 := rotl s.v1 13 ^^^ v0
  let v0 := rotl v0 32
  let v2 := s.v2 + s.v3
  let v3 := rotl s.v3 16 ^^^ v2
  let v0 := v0 + v3
  let v3 := rotl v3 21 ^^^ v0
  let v2 := v2 + v1
  let v1 := rotl v1 17 ^^^ v2
  ⟨v0, v1, rotl v2 32, v3⟩

/-- Takes one word of the message, with one round. -/
def State.absorb (s : State) (word : UInt64) : State :=
  let s := { s with v3 := s.v3 ^^^ word }.round
  { s with v0 := s.v0 ^^^ word }

/-- The word whose bytes, lowest first, are given. -/
def word (bytes : List UInt8) : UInt64 :=
  bytes.foldr (fun byte acc => (acc <<< 8) ||| byte.toUInt64) 0

/-- Takes all words of the message. The last word holds the remaining bytes, and the length of
the message in its highest byte. -/
def absorbAll (length : Nat) (s : State) (bytes : List UInt8) : State :=
  if bytes.length < 8 then
    s.absorb (word bytes ||| (length.toUInt64 <<< 56))
  else absorbAll length (s.absorb (word (bytes.take 8))) (bytes.drop 8)
termination_by bytes.length
decreasing_by simp only [List.length_drop]; omega

/-- The hash of a message: three rounds after the last word. -/
def hash (bytes : List UInt8) : UInt64 :=
  let s := absorbAll bytes.length .init bytes
  let s := { s with v2 := s.v2 ^^^ 0xff }.round.round.round
  s.v0 ^^^ s.v1 ^^^ s.v2 ^^^ s.v3

end SipHash

/-- Eight hexadecimal digits that identify a text: the low half of the hash of its bytes and a
closing byte `ff`. -/
def scopeHash (text : String) : String :=
  hexDigits 8 ((SipHash.hash (text.toUTF8.toList ++ [0xff])).toNat % Nat.pow 2 32)

/-- The names generated so far for one file. -/
structure Labels where
  /-- The hash of the file's path. -/
  scope : String
  /-- How many labels were made. -/
  labels : Nat
  /-- How many functions without a name were named. -/
  functions : Nat
deriving DecidableEq, Inhabited, Repr

namespace Labels

/-- The start of every generated label. -/
def labelStem : String := "compiled_label_"

/-- No names generated yet for the file at `path`. -/
def forFile (path : String) : Labels := ⟨scopeHash path, 0, 0⟩

/-- The next label and the names after it. -/
def nextLabel (l : Labels) : String × Labels :=
  (labelStem ++ l.scope ++ "_" ++ toString l.labels, { l with labels := l.labels + 1 })

/-- The next name of a function without one, and the names after it. -/
def nextFunction (l : Labels) : String × Labels :=
  ("\x7banonymous\x7d#" ++ toString (l.functions + 1), { l with functions := l.functions + 1 })

end Labels

end QueryTaint
