import ODataRequest.Text.Basic

/-! The UTF-8 form of texts: encoding, and decoding that reports where the first malformed sequence
starts and how long it is. -/

namespace ODataRequest.Utf8

def encodeChar (c : Char) : List UInt8 :=
  let n := c.toNat
  if n < 0x80 then [UInt8.ofNat n]
  else if n < 0x800 then [UInt8.ofNat (0xC0 + n / 0x40), UInt8.ofNat (0x80 + n % 0x40)]
  else if n < 0x10000 then
    [UInt8.ofNat (0xE0 + n / 0x1000), UInt8.ofNat (0x80 + n / 0x40 % 0x40),
      UInt8.ofNat (0x80 + n % 0x40)]
  else
    [UInt8.ofNat (0xF0 + n / 0x40000), UInt8.ofNat (0x80 + n / 0x1000 % 0x40),
      UInt8.ofNat (0x80 + n / 0x40 % 0x40), UInt8.ofNat (0x80 + n % 0x40)]

def encode (text : Text) : List UInt8 :=
  text.flatMap encodeChar

/-- A malformed byte sequence. -/
structure DecodeError where
  validUpTo : Nat
  /-- The number of bytes that cannot belong to any character, none if the bytes end inside one. -/
  length? : Option Nat
  deriving DecidableEq

def DecodeError.message (e : DecodeError) : Text :=
  match e.length? with
  | some length =>
    "invalid utf-8 sequence of ".toList ++ Nat.toDigits 10 length ++ " bytes from index ".toList ++
      Nat.toDigits 10 e.validUpTo
  | none => "incomplete utf-8 byte sequence from index ".toList ++ Nat.toDigits 10 e.validUpTo

/-- What the first byte of a longer sequence says: how many bytes follow it, the value of its own
bits, and the range of the second byte, which is narrower where a longer form, a surrogate or a
value above 10FFFF would begin. -/
structure Lead where
  following : Nat
  bits : Nat
  low : Nat
  high : Nat

/-- The reading of a first byte at or above 80, none if no sequence starts with it. -/
def Lead.ofByte? (byte : UInt8) : Option Lead :=
  let b := byte.toNat
  if b < 0xC2 then none
  else if b < 0xE0 then some ⟨1, b - 0xC0, 0x80, 0xBF⟩
  else if b < 0xF0 then
    some ⟨2, b - 0xE0, if b = 0xE0 then 0xA0 else 0x80, if b = 0xED then 0x9F else 0xBF⟩
  else if b < 0xF5 then
    some ⟨3, b - 0xF0, if b = 0xF0 then 0x90 else 0x80, if b = 0xF4 then 0x8F else 0xBF⟩
  else none

/-- The six bits of a continuation byte within a range. -/
def continuation? (low high : Nat) (byte : UInt8) : Option Nat :=
  if low ≤ byte.toNat ∧ byte.toNat ≤ high then some (byte.toNat - 0x80) else none

/-- The text of well-formed bytes, where `index` bytes have been read before. -/
def decodeFrom (index : Nat) : List UInt8 → Except DecodeError Text
  | [] => .ok []
  | first :: bytes =>
    if first < 0x80 then (decodeFrom (index + 1) bytes).map (Char.ofNat first.toNat :: ·)
    else
      match Lead.ofByte? first with
      | none => .error ⟨index, some 1⟩
      | some lead =>
        match bytes with
        | [] => .error ⟨index, none⟩
        | second :: bytes =>
          match continuation? lead.low lead.high second with
          | none => .error ⟨index, some 1⟩
          | some x =>
            if lead.following = 1 then
              (decodeFrom (index + 2) bytes).map (Char.ofNat (lead.bits * 0x40 + x) :: ·)
            else
              match bytes with
              | [] => .error ⟨index, none⟩
              | third :: bytes =>
                match continuation? 0x80 0xBF third with
                | none => .error ⟨index, some 2⟩
                | some y =>
                  if lead.following = 2 then
                    (decodeFrom (index + 3) bytes).map
                      (Char.ofNat ((lead.bits * 0x40 + x) * 0x40 + y) :: ·)
                  else
                    match bytes with
                    | [] => .error ⟨index, none⟩
                    | fourth :: bytes =>
                      match continuation? 0x80 0xBF fourth with
                      | none => .error ⟨index, some 3⟩
                      | some z =>
                        (decodeFrom (index + 4) bytes).map
                          (Char.ofNat (((lead.bits * 0x40 + x) * 0x40 + y) * 0x40 + z) :: ·)

/-- The text that the bytes encode. -/
def decode (bytes : List UInt8) : Except DecodeError Text :=
  decodeFrom 0 bytes

end ODataRequest.Utf8
