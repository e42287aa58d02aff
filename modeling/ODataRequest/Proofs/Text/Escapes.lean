import Mathlib.Data.List.Flatten
import ODataRequest.Text.Percent

/-! Escaped texts. Decoding the UTF-8 form of a text gives the text back, a text without a percent
sign stands for itself, and what a profile escapes is unescaped to what it was. -/

namespace ODataRequest

namespace Utf8

/-- The scalar values of characters leave out the surrogates. -/
theorem toNat_valid (c : Char) : c.toNat < 0xD800 ∨ (0xDFFF < c.toNat ∧ c.toNat < 0x110000) :=
  c.valid

theorem toNat_ofNat_of_lt {n : Nat} (h : n < 0x100) : (UInt8.ofNat n).toNat = n :=
  Nat.mod_eq_of_lt h

theorem continuation?_of_le {low high n : Nat} (hlow : low ≤ n) (hhigh : n ≤ high) (h : n < 0x100) :
    continuation? low high (UInt8.ofNat n) = some (n - 0x80) := by
  rw [continuation?, toNat_ofNat_of_lt h, if_pos ⟨hlow, hhigh⟩]

theorem ofByte?_two {n : Nat} (hlow : 0xC2 ≤ n) (hhigh : n < 0xE0) :
    Lead.ofByte? (UInt8.ofNat n) = some ⟨1, n - 0xC0, 0x80, 0xBF⟩ := by
  rw [Lead.ofByte?, toNat_ofNat_of_lt (by omega)]
  rw [if_neg (by omega), if_pos hhigh]

theorem ofByte?_three {n : Nat} (hlow : 0xE0 ≤ n) (hhigh : n < 0xF0) :
    Lead.ofByte? (UInt8.ofNat n) = some ⟨2, n - 0xE0, if n = 0xE0 then 0xA0 else 0x80,
      if n = 0xED then 0x9F else 0xBF⟩ := by
  rw [Lead.ofByte?, toNat_ofNat_of_lt (by omega)]
  rw [if_neg (by omega), if_neg (by omega), if_pos hhigh]

theorem ofByte?_four {n : Nat} (hlow : 0xF0 ≤ n) (hhigh : n < 0xF5) :
    Lead.ofByte? (UInt8.ofNat n) = some ⟨3, n - 0xF0, if n = 0xF0 then 0x90 else 0x80,
      if n = 0xF4 then 0x8F else 0xBF⟩ := by
  rw [Lead.ofByte?, toNat_ofNat_of_lt (by omega)]
  rw [if_neg (by omega), if_neg (by omega), if_neg (by omega), if_pos hhigh]

theorem not_ascii {n : Nat} (hlow : 0x80 ≤ n) (hhigh : n < 0x100) : ¬UInt8.ofNat n < 0x80 := by
  rw [UInt8.lt_iff_toNat_lt, toNat_ofNat_of_lt hhigh]
  exact Nat.not_lt_of_le hlow

section Sequences

variable {first second third fourth : UInt8} {bits low high x y z : Nat}

theorem decodeFrom_two (index : Nat) (bytes : List UInt8) (hfirst : ¬first < 0x80)
    (hlead : Lead.ofByte? first = some ⟨1, bits, low, high⟩)
    (hsecond : continuation? low high second = some x) :
    decodeFrom index (first :: second :: bytes) =
      (decodeFrom (index + 2) bytes).map (Char.ofNat (bits * 0x40 + x) :: ·) := by
  rw [decodeFrom.eq_def]
  simp only [if_neg hfirst, hlead, hsecond, if_true]

theorem decodeFrom_three (index : Nat) (bytes : List UInt8) (hfirst : ¬first < 0x80)
    (hlead : Lead.ofByte? first = some ⟨2, bits, low, high⟩)
    (hsecond : continuation? low high second = some x)
    (hthird : continuation? 0x80 0xBF third = some y) :
    decodeFrom index (first :: second :: third :: bytes) =
      (decodeFrom (index + 3) bytes).map (Char.ofNat ((bits * 0x40 + x) * 0x40 + y) :: ·) := by
  rw [decodeFrom.eq_def]
  simp only [if_neg hfirst, hlead, hsecond, hthird, Nat.reduceEqDiff, if_true, if_false]

theorem decodeFrom_four (index : Nat) (bytes : List UInt8) (hfirst : ¬first < 0x80)
    (hlead : Lead.ofByte? first = some ⟨3, bits, low, high⟩)
    (hsecond : continuation? low high second = some x)
    (hthird : continuation? 0x80 0xBF third = some y)
    (hfourth : continuation? 0x80 0xBF fourth = some z) :
    decodeFrom index (first :: second :: third :: fourth :: bytes) =
      (decodeFrom (index + 4) bytes).map
        (Char.ofNat (((bits * 0x40 + x) * 0x40 + y) * 0x40 + z) :: ·) := by
  rw [decodeFrom.eq_def]
  simp only [if_neg hfirst, hlead, hsecond, hthird, hfourth, Nat.reduceEqDiff, if_false]

end Sequences

/-- A byte of ASCII is the whole of its character. -/
theorem mem_of_mem_encode {text : Text} {byte : UInt8} (h : byte.toNat < 0x80) (hmem : byte ∈ encode text) :
    Char.ofNat byte.toNat ∈ text := by
  obtain ⟨c, hc, hmem⟩ := List.mem_flatMap.mp hmem
  have hvalid := toNat_valid c
  have hlater : ∀ {n}, 0x80 ≤ n → n < 0x100 → byte ≠ UInt8.ofNat n := by
    rintro n hlow hhigh rfl
    rw [toNat_ofNat_of_lt hhigh] at h
    omega
  by_cases hone : c.toNat < 0x80
  · have hencode : encodeChar c = [UInt8.ofNat c.toNat] := if_pos hone
    rw [hencode, List.mem_singleton] at hmem
    rwa [hmem, toNat_ofNat_of_lt (by omega), Char.ofNat_toNat]
  rw [encodeChar, if_neg hone] at hmem
  split at hmem
  · simp only [List.mem_cons, List.not_mem_nil, or_false] at hmem
    rcases hmem with heq | heq <;> exact absurd heq (hlater (by omega) (by omega))
  split at hmem
  · simp only [List.mem_cons, List.not_mem_nil, or_false] at hmem
    rcases hmem with heq | heq | heq <;> exact absurd heq (hlater (by omega) (by omega))
  · simp only [List.mem_cons, List.not_mem_nil, or_false] at hmem
    rcases hmem with heq | heq | heq | heq <;> exact absurd heq (hlater (by omega) (by omega))

/-- The bytes of a character are decoded to the character. -/
theorem decodeFrom_encodeChar (index : Nat) (c : Char) (bytes : List UInt8) :
    decodeFrom index (encodeChar c ++ bytes) =
      (decodeFrom (index + (encodeChar c).length) bytes).map (c :: ·) := by
  have hvalid := toNat_valid c
  have hchar : ∀ {n}, n = c.toNat → Char.ofNat n = c := by
    rintro n rfl
    exact Char.ofNat_toNat c
  by_cases hone : c.toNat < 0x80
  · have hencode : encodeChar c = [UInt8.ofNat c.toNat] := if_pos hone
    have hascii : UInt8.ofNat c.toNat < 0x80 := by
      rw [UInt8.lt_iff_toNat_lt, toNat_ofNat_of_lt (by omega)]
      exact hone
    rw [hencode, List.singleton_append, decodeFrom, if_pos hascii, toNat_ofNat_of_lt (by omega),
      hchar rfl]
    rfl
  by_cases htwo : c.toNat < 0x800
  · have hencode : encodeChar c =
        [UInt8.ofNat (0xC0 + c.toNat / 0x40), UInt8.ofNat (0x80 + c.toNat % 0x40)] := by
      rw [encodeChar, if_neg hone, if_pos htwo]
    rw [hencode]
    refine (decodeFrom_two index bytes (not_ascii (by omega) (by omega))
      (ofByte?_two (by omega) (by omega))
      (continuation?_of_le (by omega) (by omega) (by omega))).trans ?_
    rw [hchar (by omega)]
    rfl
  by_cases hthree : c.toNat < 0x10000
  · have hencode : encodeChar c =
        [UInt8.ofNat (0xE0 + c.toNat / 0x1000), UInt8.ofNat (0x80 + c.toNat / 0x40 % 0x40),
          UInt8.ofNat (0x80 + c.toNat % 0x40)] := by
      rw [encodeChar, if_neg hone, if_neg htwo, if_pos hthree]
    rw [hencode]
    refine (decodeFrom_three index bytes (not_ascii (by omega) (by omega))
      (ofByte?_three (by omega) (by omega))
      (continuation?_of_le (by split <;> omega) (by split <;> omega) (by omega))
      (continuation?_of_le (by omega) (by omega) (by omega))).trans ?_
    rw [hchar (by omega)]
    rfl
  · have hencode : encodeChar c =
        [UInt8.ofNat (0xF0 + c.toNat / 0x40000), UInt8.ofNat (0x80 + c.toNat / 0x1000 % 0x40),
          UInt8.ofNat (0x80 + c.toNat / 0x40 % 0x40), UInt8.ofNat (0x80 + c.toNat % 0x40)] := by
      rw [encodeChar, if_neg hone, if_neg htwo, if_neg hthree]
    rw [hencode]
    refine (decodeFrom_four index bytes (not_ascii (by omega) (by omega))
      (ofByte?_four (by omega) (by omega))
      (continuation?_of_le (by split <;> omega) (by split <;> omega) (by omega))
      (continuation?_of_le (by omega) (by omega) (by omega))
      (continuation?_of_le (by omega) (by omega) (by omega))).trans ?_
    rw [hchar (by omega)]
    rfl

/-- Decoding undoes encoding. -/
theorem decode_encode (text : Text) : decode (encode text) = .ok text := by
  have hfrom : ∀ index, decodeFrom index (encode text) = .ok text := by
    induction text with
    | nil => exact fun index => rfl
    | cons c rest ih =>
        intro index
        have hencode : encode (c :: rest) = encodeChar c ++ encode rest := List.flatMap_cons
        rw [hencode, decodeFrom_encodeChar, ih]
        rfl
  exact hfrom 0

end Utf8

namespace Percent

/-! ### Texts without escapes -/

theorem unescapedBytes_of_ne {c : Char} (h : c ≠ '%') (rest : Text) :
    unescapedBytes (c :: rest) = Utf8.encodeChar c ++ unescapedBytes rest := by
  rw [unescapedBytes]
  exact fun _ _ _ heq => absurd heq h

theorem unescapedBytes_bare {text : Text} (h : '%' ∉ text) (rest : Text) :
    unescapedBytes (text ++ rest) = Utf8.encode text ++ unescapedBytes rest := by
  induction text with
  | nil => rfl
  | cons c text ih =>
      rw [List.mem_cons, not_or] at h
      have hencode : Utf8.encode (c :: text) = Utf8.encodeChar c ++ Utf8.encode text :=
        List.flatMap_cons
      rw [List.cons_append, unescapedBytes_of_ne (Ne.symm h.1), ih h.2, hencode, List.append_assoc]

/-- A text without a percent sign stands for itself. -/
theorem unescape_bare {text : Text} (h : '%' ∉ text) : unescape text = .ok text := by
  have hbytes := unescapedBytes_bare h []
  rw [List.append_nil] at hbytes
  rw [unescape, hbytes, unescapedBytes, List.append_nil, Utf8.decode_encode]

/-! ### Escaped texts -/

theorem hexValue?_hexDigit : ∀ n < 16, hexValue? (hexDigit n) = some n := by
  decide

theorem unescapedBytes_digits (byte : UInt8) (rest : Text) :
    unescapedBytes ('%' :: hexDigit (byte.toNat / 16) :: hexDigit (byte.toNat % 16) :: rest) =
      byte :: unescapedBytes rest := by
  have hlt : byte.toNat < 256 := byte.toNat_lt
  have hbyte : 16 * (byte.toNat / 16) + byte.toNat % 16 = byte.toNat := Nat.div_add_mod _ _
  rw [unescapedBytes, hexValue?_hexDigit _ (by omega), hexValue?_hexDigit _ (by omega)]
  dsimp only
  rw [hbyte, UInt8.ofNat_toNat]

namespace Profile

/-- What a profile leaves bare is printable ASCII and no percent sign. -/
theorem bare_of_reserves {profile : Profile} {byte : UInt8} (h : profile.reserves byte = false) :
    byte.toNat < 0x7F ∧ byte ≠ 0x25 := by
  constructor
  · have hprintable : isUnprintable byte = false := by
      cases profile with
      | path =>
          rw [reserves, Bool.or_eq_false_iff] at h
          exact h.1
      | queryValue =>
          rw [reserves, Bool.or_eq_false_iff] at h
          exact h.1
    rw [isUnprintable, Bool.or_eq_false_iff, decide_eq_false_iff_not, decide_eq_false_iff_not,
      UInt8.le_iff_toNat_le] at hprintable
    exact Nat.lt_of_not_le hprintable.2
  · rintro rfl
    cases profile <;> exact absurd h (by decide)

end Profile

variable {profile : Profile}

theorem toNat_ofNat_of_bare {byte : UInt8} (h : profile.reserves byte = false) :
    (Char.ofNat byte.toNat).toNat = byte.toNat := by
  have hascii : ∀ n < 0x7F, (Char.ofNat n).toNat = n := by decide
  exact hascii byte.toNat (Profile.bare_of_reserves h).1

theorem unescapedBytes_encodeByte (byte : UInt8) (rest : Text) :
    unescapedBytes (encodeByte profile.reserves byte ++ rest) = byte :: unescapedBytes rest := by
  by_cases hreserved : profile.reserves byte = true
  · rw [encodeByte, if_pos hreserved]
    exact unescapedBytes_digits byte rest
  · rw [encodeByte, if_neg hreserved]
    obtain ⟨hlt, hpercent⟩ := Profile.bare_of_reserves (Bool.eq_false_iff.mpr hreserved)
    have hnat := toNat_ofNat_of_bare (Bool.eq_false_iff.mpr hreserved)
    have hne : Char.ofNat byte.toNat ≠ '%' := by
      intro heq
      rw [heq] at hnat
      exact hpercent (UInt8.toNat_inj.mp hnat.symm)
    have hencode : Utf8.encodeChar (Char.ofNat byte.toNat) = [byte] := by
      rw [Utf8.encodeChar, hnat, if_pos (by omega), UInt8.ofNat_toNat]
    rw [List.singleton_append, unescapedBytes_of_ne hne, hencode]
    rfl

theorem unescapedBytes_escape (text rest : Text) :
    unescapedBytes (escape profile text ++ rest) = Utf8.encode text ++ unescapedBytes rest := by
  rw [escape, encode]
  generalize Utf8.encode text = bytes
  induction bytes with
  | nil => rfl
  | cons byte bytes ih =>
      rw [List.flatMap_cons, List.append_assoc, unescapedBytes_encodeByte, ih]
      rfl

/-- Unescaping undoes either profile. -/
theorem unescape_escape (text : Text) : unescape (escape profile text) = .ok text := by
  have hbytes := @unescapedBytes_escape profile text []
  rw [List.append_nil] at hbytes
  rw [unescape, hbytes, unescapedBytes, List.append_nil, Utf8.decode_encode]

theorem escape_ne_nil {text : Text} (h : text ≠ []) : escape profile text ≠ [] := by
  intro hnil
  have hunescape := @unescape_escape profile text
  rw [hnil] at hunescape
  exact h (Except.ok.inj hunescape).symm

/-! ### The characters of an escaped text -/

/-- A mark that stands in no escaped text of a profile. -/
def Profile.Excludes (profile : Profile) (mark : Char) : Prop :=
  mark.toNat < 0x80 ∧ profile.reserves (UInt8.ofNat mark.toNat) = true ∧ hexValue? mark = none ∧ mark ≠ '%'

instance (profile : Profile) : DecidablePred profile.Excludes := fun _ =>
  inferInstanceAs (Decidable (_ ∧ _ ∧ _ ∧ _))

/-- Every character of an escaped text belongs to an escape or stands for itself. -/
theorem mem_escape_cases {mark : Char} {text : Text} (h : mark ∈ escape profile text) :
    mark = '%' ∨ (∃ n < 16, mark = hexDigit n) ∨
      ∃ byte ∈ Utf8.encode text, profile.reserves byte = false ∧ mark = Char.ofNat byte.toNat := by
  obtain ⟨byte, hbyte, hmem⟩ := List.mem_flatMap.mp h
  have hlt : byte.toNat < 256 := byte.toNat_lt
  rw [encodeByte] at hmem
  split at hmem
  · simp only [List.mem_cons, List.not_mem_nil, or_false] at hmem
    rcases hmem with heq | heq | heq
    · exact Or.inl heq
    · exact Or.inr (Or.inl ⟨_, by omega, heq⟩)
    · exact Or.inr (Or.inl ⟨_, by omega, heq⟩)
  · rename_i hbare
    exact Or.inr (Or.inr ⟨byte, hbyte, Bool.eq_false_iff.mpr hbare, List.mem_singleton.mp hmem⟩)

theorem not_mem_escape {mark : Char} (h : profile.Excludes mark) (text : Text) :
    mark ∉ escape profile text := by
  obtain ⟨hascii, hreserved, hhex, hpercent⟩ := h
  intro hmem
  rcases mem_escape_cases hmem with heq | ⟨n, hn, rfl⟩ | ⟨byte, -, hbare, rfl⟩
  · exact hpercent heq
  · rw [hexValue?_hexDigit n hn] at hhex
    cases hhex
  · rw [toNat_ofNat_of_bare hbare, UInt8.ofNat_toNat, hbare] at hreserved
    cases hreserved

/-- A mark that no escape is made of is not brought into a text by escaping it. -/
theorem not_mem_escape_of_not_mem {mark : Char} {text : Text} (hhex : hexValue? mark = none)
    (hpercent : mark ≠ '%') (h : mark ∉ text) : mark ∉ escape profile text := by
  intro hmem
  rcases mem_escape_cases hmem with heq | ⟨n, hn, rfl⟩ | ⟨byte, hbyte, hbare, rfl⟩
  · exact hpercent heq
  · rw [hexValue?_hexDigit n hn] at hhex
    cases hhex
  · obtain ⟨hlt, -⟩ := Profile.bare_of_reserves hbare
    exact h (Utf8.mem_of_mem_encode (by omega) hbyte)

end Percent

end ODataRequest
