import Mathlib.Data.Bool.AllAny
import ODataRequest.Proofs.Text.Characters
import ODataRequest.Proofs.Text.Escapes
import ODataRequest.Proofs.Text.Runs
import ODataRequest.Proofs.Text.Spelling
import ODataRequest.WebUrl.Parse

/-! The characters of URLs that are written. An escaped text holds nothing that would be escaped once
more, so escaping keeps it. Whatever is written in a URL is solid: the reading of a URL drops none of it,
and does not find the end of the path in it. -/

namespace ODataRequest

namespace Percent

/-! ### Escaping what is escaped -/

/-- A character that escaping keeps. -/
def Keeps (reserved : UInt8 → Bool) (c : Char) : Prop :=
  c.toNat < 0x80 ∧ reserved (UInt8.ofNat c.toNat) = false

instance (reserved : UInt8 → Bool) : DecidablePred (Keeps reserved) := fun _ =>
  inferInstanceAs (Decidable (_ ∧ _))

/-- Bytes that leave bare what escapes are made of, and no byte outside ASCII. -/
structure Stable (reserved : UInt8 → Bool) : Prop where
  beyond : ∀ byte, 0x80 ≤ byte.toNat → reserved byte = true
  percent : Keeps reserved '%'
  digits : ∀ n < 16, Keeps reserved (hexDigit n)

section

variable {reserved : UInt8 → Bool} {text : Text}

theorem encode_cons (c : Char) (rest : Text) :
    encode reserved (c :: rest) = (Utf8.encodeChar c).flatMap (encodeByte reserved) ++ encode reserved rest := by
  have hbytes : Utf8.encode (c :: rest) = Utf8.encodeChar c ++ Utf8.encode rest := List.flatMap_cons
  rw [encode, encode, hbytes, List.flatMap_append]

theorem toNat_ofNat_of_ascii : ∀ n < 0x80, (Char.ofNat n).toNat = n := by
  decide

/-- What stands in an escaped text is kept. -/
theorem Stable.keeps (h : Stable reserved) {c : Char} (hmem : c ∈ encode reserved text) :
    Keeps reserved c := by
  obtain ⟨byte, -, hmem⟩ := List.mem_flatMap.mp hmem
  have hlt : byte.toNat < 256 := byte.toNat_lt
  rw [encodeByte] at hmem
  split at hmem
  · simp only [List.mem_cons, List.not_mem_nil, or_false] at hmem
    rcases hmem with rfl | rfl | rfl
    · exact h.percent
    · exact h.digits _ (by omega)
    · exact h.digits _ (by omega)
  · rename_i hbare
    have hascii : byte.toNat < 0x80 := Nat.lt_of_not_le fun hlarge => hbare (h.beyond byte hlarge)
    have hnat := toNat_ofNat_of_ascii byte.toNat hascii
    rw [List.mem_singleton] at hmem
    rw [hmem, Keeps, hnat, UInt8.ofNat_toNat]
    exact ⟨hascii, Bool.eq_false_iff.mpr hbare⟩

end

end Percent

namespace WebUrl

open Percent

/-- A character that the reading of a URL does not drop, and that does not end the path. -/
def IsSolid (c : Char) : Prop :=
  0x20 < c.toNat ∧ c.toNat < 0x7F ∧ endsPath c = false

instance : DecidablePred IsSolid := fun _ => inferInstanceAs (Decidable (_ ∧ _ ∧ _))

/-- A solid character that does not end an authority. -/
def IsInner (c : Char) : Prop :=
  IsSolid c ∧ c ≠ '/' ∧ c ≠ '\\'

instance : DecidablePred IsInner := fun _ => inferInstanceAs (Decidable (_ ∧ _ ∧ _))

variable {c : Char} {text rest : Text}

theorem IsSolid.not_ignored (h : IsSolid c) : isIgnored c = false := by
  have hne : ∀ d : Char, d.toNat ≤ 0x20 → c ≠ d := by
    rintro d hd rfl
    exact absurd h.1 (Nat.not_lt_of_le hd)
  rw [isIgnored, decide_eq_false (hne '\t' (by decide)), decide_eq_false (hne '\n' (by decide)),
    decide_eq_false (hne '\x0d' (by decide))]
  rfl

theorem dropIgnored_of_solid (h : ∀ c ∈ text, IsSolid c) : dropIgnored text = text := by
  rw [dropIgnored, List.filter_eq_self]
  intro c hmem
  rw [(h c hmem).not_ignored]
  rfl

end WebUrl

end ODataRequest
