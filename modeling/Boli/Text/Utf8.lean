/-!
UTF-8, with the place and the reason of the first fault.

`decode` accepts exactly the well-formed sequences: no overlong form, no surrogate, nothing above
U+10FFFF. A fault names the bytes it spans: a byte that starts no sequence, the valid beginning of a
sequence that goes on wrongly, or the unfinished sequence at the end.
-/

set_option autoImplicit false

namespace Boli.Text.Utf8

/-- Why a sequence of bytes is no UTF-8 text. -/
inductive Reason where
  /-- A byte that begins no sequence. -/
  | invalidStart
  /-- A sequence goes on with a byte that cannot stand there. -/
  | invalidContinuation
  /-- The bytes end inside a sequence. -/
  | unexpectedEnd
  deriving DecidableEq

/-- The first fault of a sequence of bytes. -/
structure Fault where
  /-- The first byte of the span at fault. -/
  byte : UInt8
  /-- The index of that byte. -/
  start : Nat
  /-- The number of bytes in the span. -/
  span : Nat
  reason : Reason
  deriving DecidableEq

/-- The wording of a reason. -/
def Reason.text : Reason → String
  | .invalidStart => "invalid start byte"
  | .invalidContinuation => "invalid continuation byte"
  | .unexpectedEnd => "unexpected end of data"

/-- A byte in two hexadecimal digits. -/
def hexByte (b : UInt8) : String :=
  String.ofList [Nat.digitChar (b.toNat / 16), Nat.digitChar (b.toNat % 16)]

/-- The message that reports a fault: one byte is shown by its value, several by their range. -/
def Fault.message (f : Fault) : String :=
  if f.span = 1 then
    "'utf-8' codec can't decode byte 0x" ++ hexByte f.byte ++ " in position " ++ toString f.start ++
      ": " ++ f.reason.text
  else
    "'utf-8' codec can't decode bytes in position " ++ toString f.start ++ "-" ++
      toString (f.start + f.span - 1) ++ ": " ++ f.reason.text

/-- What a first byte announces: a whole character, or how many bytes follow and the range that the
next one lies in. -/
inductive Lead where
  | single
  | sequence (following : Nat) (low high : UInt8)
  | invalid

/-- Classifies a first byte. The range of the second byte excludes overlong forms, surrogates and
code points above U+10FFFF. -/
def Lead.of (b : UInt8) : Lead :=
  if b < 0x80 then .single
  else if b < 0xC2 then .invalid
  else if b < 0xE0 then .sequence 1 0x80 0xBF
  else if b = 0xE0 then .sequence 2 0xA0 0xBF
  else if b = 0xED then .sequence 2 0x80 0x9F
  else if b < 0xF0 then .sequence 2 0x80 0xBF
  else if b = 0xF0 then .sequence 3 0x90 0xBF
  else if b < 0xF4 then .sequence 3 0x80 0xBF
  else if b = 0xF4 then .sequence 3 0x80 0x8F
  else .invalid

/-- A byte that may stand anywhere after the second place of a sequence. -/
def isTail (b : UInt8) : Bool := 0x80 ≤ b && b ≤ 0xBF

/-- The six low bits, which a continuation byte carries. -/
def payload (b : UInt8) : Nat := b.toNat % 64

/-- Decodes the bytes from index `start` on. -/
def decodeFrom (start : Nat) : List UInt8 → Except Fault (List Char)
  | [] => .ok []
  | b :: rest =>
    match Lead.of b with
    | .single => (Char.ofNat b.toNat :: ·) <$> decodeFrom (start + 1) rest
    | .invalid => .error ⟨b, start, 1, .invalidStart⟩
    | .sequence following low high =>
      match rest with
      | [] => .error ⟨b, start, 1, .unexpectedEnd⟩
      | b₂ :: rest₂ =>
        if !(low ≤ b₂ && b₂ ≤ high) then .error ⟨b, start, 1, .invalidContinuation⟩
        else if following = 1 then
          (Char.ofNat (b.toNat % 32 * 64 + payload b₂) :: ·) <$> decodeFrom (start + 2) rest₂
        else
          match rest₂ with
          | [] => .error ⟨b, start, 2, .unexpectedEnd⟩
          | b₃ :: rest₃ =>
            if !isTail b₃ then .error ⟨b, start, 2, .invalidContinuation⟩
            else if following = 2 then
              (Char.ofNat ((b.toNat % 16 * 64 + payload b₂) * 64 + payload b₃) :: ·) <$>
                decodeFrom (start + 3) rest₃
            else
              match rest₃ with
              | [] => .error ⟨b, start, 3, .unexpectedEnd⟩
              | b₄ :: rest₄ =>
                if !isTail b₄ then .error ⟨b, start, 3, .invalidContinuation⟩
                else
                  (Char.ofNat (((b.toNat % 8 * 64 + payload b₂) * 64 + payload b₃) * 64 +
                    payload b₄) :: ·) <$> decodeFrom (start + 4) rest₄

/-- The characters that a sequence of bytes encodes, or its first fault. -/
def decode (bytes : List UInt8) : Except Fault (List Char) := decodeFrom 0 bytes

/-- The bytes of a text. -/
def encode (s : String) : List UInt8 := s.toList.flatMap String.utf8EncodeChar

end Boli.Text.Utf8
