import Mathlib.Data.List.Basic
import ODataRequest.Proofs.Text.Characters
import ODataRequest.Proofs.Text.Escapes

/-! The two definitions of a profile. Texts are escaped byte by byte, by a table of bytes, and each
profile is also a predicate on characters. Main statement: the table and the predicate say the same of
every character, so that a text is escaped character by character as the predicate says, and what was
escaped, or came out of unescaping, is got back by unescaping. -/

namespace ODataRequest

namespace Utf8

/-- The bytes of a character are those of the library's encoding. -/
theorem encodeChar_eq_utf8EncodeChar (c : Char) : encodeChar c = String.utf8EncodeChar c := by
  have hvalid := toNat_valid c
  have hval : c.val.toNat = c.toNat := rfl
  have hbyte : ∀ {m n : Nat}, m = n → UInt8.ofNat m = UInt8.ofNat n := fun h => congrArg _ h
  unfold encodeChar String.utf8EncodeChar
  dsimp only
  rw [hval]
  by_cases hone : c.toNat < 0x80
  · rw [if_pos hone, if_pos (by omega : c.toNat ≤ 127)]
  rw [if_neg hone, if_neg (by omega : ¬c.toNat ≤ 127)]
  by_cases htwo : c.toNat < 0x800
  · rw [if_pos htwo, if_pos (by omega : c.toNat ≤ 2047),
      hbyte (by omega : 0xC0 + c.toNat / 0x40 = c.toNat / 64 % 32 + 192),
      hbyte (by omega : 0x80 + c.toNat % 0x40 = c.toNat % 64 + 128)]
  rw [if_neg htwo, if_neg (by omega : ¬c.toNat ≤ 2047)]
  by_cases hthree : c.toNat < 0x10000
  · rw [if_pos hthree, if_pos (by omega : c.toNat ≤ 65535),
      hbyte (by omega : 0xE0 + c.toNat / 0x1000 = c.toNat / 4096 % 16 + 224),
      hbyte (by omega : 0x80 + c.toNat / 0x40 % 0x40 = c.toNat / 64 % 64 + 128),
      hbyte (by omega : 0x80 + c.toNat % 0x40 = c.toNat % 64 + 128)]
  · rw [if_neg hthree, if_neg (by omega : ¬c.toNat ≤ 65535),
      hbyte (by omega : 0xF0 + c.toNat / 0x40000 = c.toNat / 262144 % 8 + 240),
      hbyte (by omega : 0x80 + c.toNat / 0x1000 % 0x40 = c.toNat / 4096 % 64 + 128),
      hbyte (by omega : 0x80 + c.toNat / 0x40 % 0x40 = c.toNat / 64 % 64 + 128),
      hbyte (by omega : 0x80 + c.toNat % 0x40 = c.toNat % 64 + 128)]

/-- Every byte of a character beyond ASCII is beyond ASCII. -/
theorem le_of_mem_encodeChar {c : Char} (h : 0x80 ≤ c.toNat) {byte : UInt8} (hbyte : byte ∈ encodeChar c) :
    0x80 ≤ byte.toNat := by
  rw [← Nat.not_lt]
  intro hascii
  have hmem : byte ∈ encode [c] := by
    rw [encode, List.flatMap_singleton]
    exact hbyte
  have hchar := List.mem_singleton.mp (mem_of_mem_encode hascii hmem)
  have hnat : (Char.ofNat byte.toNat).toNat = byte.toNat := by
    have hsmall : ∀ n < 0x80, (Char.ofNat n).toNat = n := by decide
    exact hsmall _ hascii
  rw [hchar] at hnat
  omega

end Utf8

namespace Percent

/-- A byte as an escape: a percent sign and two digits. -/
def byteEscape (byte : UInt8) : Text :=
  ['%', hexDigit (byte.toNat / 16), hexDigit (byte.toNat % 16)]

/-- A character as escapes, one for each byte of its UTF-8 form. -/
def charEscape (c : Char) : Text :=
  (String.utf8EncodeChar c).flatMap byteEscape

/-- A character as a predicate says: as escapes, or as it is. -/
def spell (escapes : Char → Bool) (c : Char) : Text :=
  if escapes c then charEscape c else [c]

namespace Profile

/-- The table and the predicate agree on ASCII. -/
theorem reserves_eq_escapes (profile : Profile) : ∀ n < 0x80,
    profile.reserves (UInt8.ofNat n) = profile.escapes (Char.ofNat n) := by
  cases profile <;> decide +kernel

theorem reserves_of_le (profile : Profile) {byte : UInt8} (h : 0x80 ≤ byte.toNat) :
    profile.reserves byte = true := by
  rw [← Bool.not_eq_false]
  intro hbare
  have := (bare_of_reserves hbare).1
  omega

/-- Every character beyond ASCII is escaped by either predicate. -/
theorem escapes_of_le (profile : Profile) {c : Char} (h : 0x80 ≤ c.toNat) : profile.escapes c = true := by
  cases profile with
  | path =>
      show escapesInPath c = true
      unfold escapesInPath
      split
      case h_17 =>
        rw [Bool.or_eq_true, decide_eq_true_eq, decide_eq_true_eq]
        exact Or.inr (by omega)
      all_goals rfl
  | queryValue =>
      have halphanum : c.isAlphanum = false := by
        rw [Bool.eq_false_iff, Char.isAlphanum, ne_eq, Bool.or_eq_true, Unicode.isAlpha_iff,
          Unicode.isDigit_iff]
        omega
      show escapesInQueryValue c = true
      unfold escapesInQueryValue
      split
      case h_5 => rw [halphanum, Bool.not_false]
      all_goals exact absurd h (by decide)

end Profile

variable {profile : Profile}

theorem encodeByte_eq (reserved : UInt8 → Bool) (byte : UInt8) : encodeByte reserved byte =
    if reserved byte then byteEscape byte else [Char.ofNat byte.toNat] :=
  rfl

/-- A character is escaped as the predicate of the profile says. -/
theorem flatMap_encodeByte (c : Char) :
    (Utf8.encodeChar c).flatMap (encodeByte profile.reserves) = spell profile.escapes c := by
  rw [spell, charEscape, ← Utf8.encodeChar_eq_utf8EncodeChar]
  by_cases hascii : c.toNat < 0x80
  · have hbytes : Utf8.encodeChar c = [UInt8.ofNat c.toNat] := if_pos hascii
    have hagree := profile.reserves_eq_escapes c.toNat hascii
    rw [Char.ofNat_toNat] at hagree
    rw [hbytes, List.flatMap_singleton, List.flatMap_singleton, encodeByte_eq, hagree,
      Utf8.toNat_ofNat_of_lt (by omega), Char.ofNat_toNat]
  · have hbeyond : 0x80 ≤ c.toNat := Nat.le_of_not_lt hascii
    rw [if_pos (profile.escapes_of_le hbeyond)]
    refine List.flatMap_congr fun byte hbyte => ?_
    rw [encodeByte_eq, if_pos (profile.reserves_of_le (Utf8.le_of_mem_encodeChar hbeyond hbyte))]

/-- **Escaping follows the predicates, and unescaping undoes it.** Under either profile every character
of a text is written as the predicate of the profile says: as it is, or as a percent sign and two digits
for each byte of its UTF-8 form. The text is got back by unescaping, also where it came out of
unescaping another one, such as one with a percent sign that begins no escape. -/
theorem escape_eq_flatMap_spell (profile : Profile) (text : Text) :
    escape profile text = text.flatMap (spell profile.escapes) ∧
      unescape (escape profile text) = .ok text ∧
      ∀ encoded decoded, unescape encoded = .ok decoded → unescape (escape profile decoded) = .ok decoded := by
  refine ⟨?_, unescape_escape text, fun _ decoded _ => unescape_escape decoded⟩
  rw [escape, encode, Utf8.encode, List.flatMap_assoc]
  exact List.flatMap_congr fun c _ => flatMap_encodeByte c

/-- A stray percent sign becomes an escape, and what looks like an escape is kept from being one. -/
theorem escape_eq_flatMap_spell_stray :
    unescape "é 50%".toList = .ok "é 50%".toList ∧
      unescape (escape .path "é 50%".toList) = .ok "é 50%".toList ∧
      unescape (escape .queryValue "%41".toList) = .ok "%41".toList ∧
      escape .queryValue "%41é".toList =
        charEscape '%' ++ '4' :: '1' :: charEscape 'é' := by
  have hstray : unescape "é 50%".toList = .ok "é 50%".toList := by decide +kernel
  obtain ⟨-, -, hpath⟩ := escape_eq_flatMap_spell .path []
  obtain ⟨-, hquery, -⟩ := escape_eq_flatMap_spell .queryValue "%41".toList
  obtain ⟨hspell, -, -⟩ := escape_eq_flatMap_spell .queryValue "%41é".toList
  exact ⟨hstray, hpath _ _ hstray, hquery, hspell.trans rfl⟩

end Percent

end ODataRequest
