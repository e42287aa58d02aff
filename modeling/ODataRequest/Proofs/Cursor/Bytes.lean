import ODataRequest.Proofs.Cursor.Slices
import ODataRequest.Proofs.Query.Scanning
import ODataRequest.Proofs.Text.Profiles

/-! Scanning by bytes. The end of a number and the closing quote of a quoted text are looked for in the
bytes of a source, index by index. Every byte that these scans ask for is a whole character of ASCII and no
byte of any other character is one, so that they stop at a boundary, where the scans by characters do. -/

namespace ODataRequest

open Text Unicode Lexeme

namespace Utf8

/-- A byte that is a whole character of ASCII, one of some class. -/
def isAscii (p : Char → Bool) (byte : UInt8) : Bool :=
  byte.toNat < 0x80 && p (Char.ofNat byte.toNat)

def digitAt (bytes : List UInt8) (index : Nat) : Bool :=
  bytes[index]?.any (isAscii Char.isDigit)

def markAt (mark : Char) (bytes : List UInt8) (index : Nat) : Bool :=
  bytes[index]?.any (isAscii (· == mark))

def digitsEnd (bytes : List UInt8) (index : Nat) : Nat :=
  index + ((bytes.drop index).takeWhile (isAscii Char.isDigit)).length

def fractionEnd (bytes : List UInt8) (index : Nat) : Nat :=
  if markAt '.' bytes index && digitAt bytes (index + 1) then digitsEnd bytes (index + 1) else index

def exponentEnd (bytes : List UInt8) (index : Nat) : Nat :=
  if markAt 'e' bytes index || markAt 'E' bytes index then
    let sign := if markAt '+' bytes (index + 1) || markAt '-' bytes (index + 1) then 1 else 0
    if digitAt bytes (index + 1 + sign) then digitsEnd bytes (index + 1 + sign) else index
  else index

def numberEnd (bytes : List UInt8) (start : Nat) : Nat :=
  let whole := digitsEnd bytes (if markAt '-' bytes start then start + 1 else start)
  exponentEnd bytes (fractionEnd bytes whole)

/-- The index after the quote that closes a quoted text, for the bytes from an index inside it on. -/
def quoteEnd? : List UInt8 → Nat → Option Nat
  | [], _ => none
  | byte :: bytes, index =>
    if isAscii (· == quoteMark) byte then
      match bytes with
      | [] => some (index + 1)
      | next :: rest =>
        if isAscii (· == quoteMark) next then quoteEnd? rest (index + 2) else some (index + 1)
    else quoteEnd? bytes (index + 1)

variable {source text rest : Text} {p : Char → Bool} {c : Char}

/-! ### The bytes of a text -/

theorem encode_cons (c : Char) (text : Text) : encode (c :: text) = encodeChar c ++ encode text :=
  List.flatMap_cons

theorem encode_append (left right : Text) : encode (left ++ right) = encode left ++ encode right :=
  List.flatMap_append

theorem length_encodeChar (c : Char) : (encodeChar c).length = c.utf8Size := by
  rw [encodeChar_eq_utf8EncodeChar, String.length_utf8EncodeChar]

theorem length_encode (text : Text) : (encode text).length = utf8Length text := by
  induction text with
  | nil => rfl
  | cons c text ih => rw [encode_cons, List.length_append, length_encodeChar, ih, utf8Length_cons]

theorem encodeChar_of_ascii (h : c.toNat < 0x80) : encodeChar c = [UInt8.ofNat c.toNat] :=
  if_pos h

/-- Characters of ASCII take a byte each. -/
theorem utf8Length_of_ascii (h : ∀ c ∈ text, c.toNat < 0x80) : utf8Length text = text.length := by
  induction text with
  | nil => rfl
  | cons c rest ih =>
      have hsize := length_encodeChar c
      rw [encodeChar_of_ascii (h c List.mem_cons_self), List.length_singleton] at hsize
      rw [utf8Length_cons, ih fun d hd => h d (List.mem_cons_of_mem c hd), ← hsize, List.length_cons,
        Nat.add_comm]

theorem isAscii_ofNat (h : c.toNat < 0x80) : isAscii p (UInt8.ofNat c.toNat) = p c := by
  rw [isAscii, toNat_ofNat_of_lt (by omega), decide_eq_true h, Bool.true_and, Char.ofNat_toNat]

/-- No byte of a character beyond ASCII is a character of ASCII. -/
theorem not_isAscii_of_le (h : 0x80 ≤ c.toNat) {byte : UInt8} (hbyte : byte ∈ encodeChar c) :
    isAscii p byte = false := by
  have := le_of_mem_encodeChar h hbyte
  rw [isAscii, decide_eq_false (by omega), Bool.false_and]

theorem encodeChar_ne_nil (c : Char) : encodeChar c ≠ [] := by
  have := c.utf8Size_pos
  rw [← length_encodeChar] at this
  exact List.ne_nil_of_length_pos this

/-- The first byte of a text is of a class of ASCII if its first character is. -/
theorem head?_encode (hp : ∀ c, p c = true → c.toNat < 0x80) (text : Text) :
    (encode text).head?.any (isAscii p) = text.head?.any p := by
  cases text with
  | nil => rfl
  | cons c rest =>
      rw [encode_cons, List.head?_cons, Option.any_some]
      by_cases hc : c.toNat < 0x80
      · rw [encodeChar_of_ascii hc, List.singleton_append, List.head?_cons, Option.any_some,
          isAscii_ofNat hc]
      · have hpc : p c = false := Bool.eq_false_iff.mpr fun h => hc (hp c h)
        obtain ⟨byte, bytes, hencode⟩ := List.exists_cons_of_ne_nil (encodeChar_ne_nil c)
        have hbyte : byte ∈ encodeChar c := hencode ▸ List.mem_cons_self
        rw [hencode, List.cons_append, List.head?_cons, Option.any_some, hpc,
          not_isAscii_of_le (Nat.le_of_not_lt hc) hbyte]

/-- The leading bytes of a class of ASCII are those of the leading characters. -/
theorem takeWhile_encode (hp : ∀ c, p c = true → c.toNat < 0x80) (text : Text) :
    (encode text).takeWhile (isAscii p) = encode (text.takeWhile p) := by
  induction text with
  | nil => rfl
  | cons c rest ih =>
      by_cases hc : p c = true
      · rw [encode_cons, encodeChar_of_ascii (hp c hc), List.singleton_append,
          List.takeWhile_cons_of_pos ((isAscii_ofNat (hp c hc)).trans hc), ih,
          List.takeWhile_cons_of_pos hc, encode_cons, encodeChar_of_ascii (hp c hc)]
        rfl
      · have hhead := head?_encode hp (c :: rest)
        rw [List.head?_cons, Option.any_some, Bool.eq_false_iff.mpr hc] at hhead
        rw [List.takeWhile_cons_of_neg hc]
        cases hbytes : encode (c :: rest) with
        | nil => rfl
        | cons byte bytes =>
            rw [hbytes, List.head?_cons, Option.any_some] at hhead
            rw [List.takeWhile_cons_of_neg (Bool.eq_false_iff.mp hhead)]
            rfl

/-! ### From an end of a source on -/

theorem drop_offsetOf (h : text <:+ source) : (encode source).drop (offsetOf source text) = encode text := by
  obtain ⟨before, rfl⟩ := h
  rw [offsetOf_append, encode_append, ← length_encode, List.drop_left]

theorem test_offsetOf (h : text <:+ source) (hp : ∀ c, p c = true → c.toNat < 0x80) :
    (encode source)[offsetOf source text]?.any (isAscii p) = text.head?.any p := by
  rw [← List.head?_drop, drop_offsetOf h, head?_encode hp]

theorem ascii_of_isDigit (c : Char) (h : c.isDigit = true) : c.toNat < 0x80 := by
  have := isDigit_iff.mp h
  omega

theorem digitAt_offsetOf (h : text <:+ source) :
    digitAt (encode source) (offsetOf source text) = text.head?.any Char.isDigit :=
  test_offsetOf h ascii_of_isDigit

theorem markAt_offsetOf (h : text <:+ source) (mark : Char) (hmark : mark.toNat < 0x80 := by decide) :
    markAt mark (encode source) (offsetOf source text) = text.head?.any (· == mark) := by
  refine test_offsetOf h fun c hc => ?_
  rw [beq_iff_eq.mp hc]
  exact hmark

/-- A character of ASCII takes one byte. -/
theorem offsetOf_succ (h : c :: rest <:+ source) (hc : c.toNat < 0x80) :
    offsetOf source (c :: rest) + 1 = offsetOf source rest := by
  have hsize : utf8Length [c] = 1 := utf8Length_of_ascii fun d hd => List.mem_singleton.mp hd ▸ hc
  have hword : [c] ++ rest <:+ source := h
  rw [offsetOf_rest hword, hsize]
  rfl

theorem digitsEnd_offsetOf (h : text <:+ source) :
    digitsEnd (encode source) (offsetOf source text) = offsetOf source (spanDigits text).2 := by
  have hsplit : text.takeWhile Char.isDigit ++ text.dropWhile Char.isDigit <:+ source := by
    rwa [List.takeWhile_append_dropWhile]
  have hrest := offsetOf_rest hsplit
  rw [List.takeWhile_append_dropWhile] at hrest
  rw [digitsEnd, drop_offsetOf h, takeWhile_encode ascii_of_isDigit, length_encode, spanDigits, hrest]

/-! ### Numbers -/

theorem suffix_tail (h : c :: rest <:+ source) : rest <:+ source :=
  (List.suffix_cons c rest).trans h

theorem spanDigits_isEmpty (text : Text) :
    (spanDigits text).1.isEmpty = !text.head?.any Char.isDigit := by
  cases text with
  | nil => rfl
  | cons c rest =>
      rw [spanDigits, List.head?_cons, Option.any_some]
      cases hc : c.isDigit with
      | false => rw [List.takeWhile_cons_of_neg (Bool.eq_false_iff.mp hc)]; rfl
      | true => rw [List.takeWhile_cons_of_pos hc]; rfl

theorem fractionEnd_offsetOf (h : text <:+ source) :
    fractionEnd (encode source) (offsetOf source text) = offsetOf source (spanFraction text).2 := by
  rw [fractionEnd, markAt_offsetOf h '.']
  cases text with
  | nil => rfl
  | cons c rest =>
      rw [List.head?_cons, Option.any_some]
      by_cases hc : c = '.'
      · subst hc
        rw [offsetOf_succ h (by decide), digitAt_offsetOf (suffix_tail h), digitsEnd_offsetOf (suffix_tail h)]
        simp only [spanFraction, spanDigits_isEmpty]
        cases rest.head?.any Char.isDigit <;> rfl
      · have hspan : spanFraction (c :: rest) = ([], c :: rest) := by
          rw [spanFraction]
          exact fun others heq => hc (List.cons.inj heq).1
        rw [beq_false_of_ne hc, Bool.false_and, hspan]
        rfl

theorem signEnd_offsetOf (h : text <:+ source) :
    (offsetOf source text + if text.head?.any (· == '+') || text.head?.any (· == '-') then 1 else 0) =
      offsetOf source (spanExponentSign text).2 := by
  cases text with
  | nil => rfl
  | cons c rest =>
      rw [List.head?_cons, Option.any_some, Option.any_some]
      by_cases hplus : c = '+'
      · subst hplus
        exact offsetOf_succ h (by decide)
      by_cases hminus : c = '-'
      · subst hminus
        exact offsetOf_succ h (by decide)
      · have hspan : spanExponentSign (c :: rest) = ([], c :: rest) := by
          rw [spanExponentSign]
          · exact fun others heq => hminus (List.cons.inj heq).1
          · exact fun others heq => hplus (List.cons.inj heq).1
        rw [beq_false_of_ne hplus, beq_false_of_ne hminus, hspan]
        rfl

theorem exponentEnd_offsetOf (h : text <:+ source) :
    exponentEnd (encode source) (offsetOf source text) = offsetOf source (spanExponent text).2 := by
  rw [exponentEnd, markAt_offsetOf h 'e', markAt_offsetOf h 'E']
  cases text with
  | nil => rfl
  | cons c rest =>
      have hmark : (c == 'e' || c == 'E') = Number.isExponentMark c := rfl
      rw [List.head?_cons, Option.any_some, Option.any_some, hmark]
      cases hc : Number.isExponentMark c with
      | false => simp only [spanExponent, hc, Bool.false_eq_true, if_false]
      | true =>
          have hascii : c.toNat < 0x80 := by
            rw [← hmark, Bool.or_eq_true, beq_iff_eq, beq_iff_eq] at hc
            rcases hc with rfl | rfl <;> decide
          have hrest := suffix_tail h
          have hspan := (Number.spanExponentSign_spec rest).2
          have hdigits : (spanExponentSign rest).2 <:+ source := List.IsSuffix.trans ⟨_, hspan.symm⟩ hrest
          have hplus := markAt_offsetOf hrest '+'
          have hminus := markAt_offsetOf hrest '-'
          simp only [offsetOf_succ h hascii, hplus, hminus, signEnd_offsetOf hrest,
            digitAt_offsetOf hdigits, digitsEnd_offsetOf hdigits, spanExponent, hc, spanDigits_isEmpty,
            if_true]
          cases (spanExponentSign rest).2.head?.any Char.isDigit <;> rfl

/-- The number at the beginning of an end of a source ends where the scan by characters ends it. -/
theorem numberEnd_offsetOf (h : text <:+ source) :
    numberEnd (encode source) (offsetOf source text) = offsetOf source (spanNumber text).2 := by
  obtain ⟨-, hunsigned, hsign⟩ := Number.spanSign_spec text
  have hwhole : (spanSign text).2 <:+ source := List.IsSuffix.trans ⟨_, hsign.symm⟩ h
  have hfraction : (spanDigits (spanSign text).2).2 <:+ source :=
    (List.dropWhile_suffix _).trans hwhole
  have hspan := (Number.spanFraction_spec (spanDigits (spanSign text).2).2).2
  have hexponent : (spanFraction (spanDigits (spanSign text).2).2).2 <:+ source :=
    List.IsSuffix.trans ⟨_, hspan.symm⟩ hfraction
  have hstart : (if markAt '-' (encode source) (offsetOf source text) then offsetOf source text + 1
      else offsetOf source text) = offsetOf source (spanSign text).2 := by
    rw [markAt_offsetOf h '-', hunsigned]
    cases text with
    | nil => rfl
    | cons c rest =>
        by_cases hc : c = '-'
        · subst hc
          exact offsetOf_succ h (by decide)
        · have hunsigned : Number.unsigned (c :: rest) = c :: rest := by simp [Number.unsigned, hc]
          rw [List.head?_cons, Option.any_some, beq_false_of_ne hc, hunsigned]
          rfl
  simp only [numberEnd, hstart, digitsEnd_offsetOf hwhole, fractionEnd_offsetOf hfraction,
    exponentEnd_offsetOf hexponent, spanNumber]

/-! ### Quotes -/

/-- A byte of a quote, the only one of its character. -/
theorem isAscii_quoteMark {byte : UInt8} (hbyte : byte ∈ encodeChar c) :
    isAscii (· == quoteMark) byte = (c == quoteMark) := by
  by_cases hc : c.toNat < 0x80
  · rw [encodeChar_of_ascii hc, List.mem_singleton] at hbyte
    rw [hbyte, isAscii_ofNat hc]
  · rw [not_isAscii_of_le (Nat.le_of_not_lt hc) hbyte, beq_false_of_ne]
    rintro rfl
    exact hc (by decide)

theorem quoteEnd?_of_ne {byte : UInt8} (h : isAscii (· == quoteMark) byte = false) (bytes : List UInt8)
    (index : Nat) : quoteEnd? (byte :: bytes) index = quoteEnd? bytes (index + 1) := by
  rw [quoteEnd?.eq_def]
  simp only [h, Bool.false_eq_true, if_false]

theorem quoteEnd?_skip {bytes : List UInt8} (h : ∀ byte ∈ bytes, isAscii (· == quoteMark) byte = false)
    (rest : List UInt8) (index : Nat) :
    quoteEnd? (bytes ++ rest) index = quoteEnd? rest (index + bytes.length) := by
  induction bytes generalizing index with
  | nil => rfl
  | cons byte bytes ih =>
      rw [List.cons_append, quoteEnd?_of_ne (h byte List.mem_cons_self),
        ih (fun other hother => h other (List.mem_cons_of_mem byte hother)), List.length_cons,
        Nat.add_assoc, Nat.add_comm 1]

/-- The closing quote is found where the scan by characters finds it. -/
theorem quoteEnd?_encode (text : Text) (index : Nat) : quoteEnd? (encode text) index =
    (spanQuoted? text).map fun parts => index + utf8Length parts.1 := by
  have hmark : isAscii (· == quoteMark) 0x27 = true := by decide
  have hsize : quoteMark.utf8Size = 1 := by decide
  fun_induction spanQuoted? text generalizing index with
  | case1 => rfl
  | case2 others ih =>
      have hbytes : encode ('\x27' :: '\x27' :: others) = 0x27 :: 0x27 :: encode others := by
        rw [encode_cons, encode_cons]
        rfl
      rw [hbytes, quoteEnd?.eq_def]
      simp only [hmark, if_true, ih, Option.map_map]
      refine Option.map_congr fun parts _ => ?_
      show index + 2 + utf8Length parts.1 = index + (quoteMark.utf8Size + (quoteMark.utf8Size + _))
      omega
  | case3 others hothers =>
      have hbytes : encode ('\x27' :: others) = 0x27 :: encode others := by
        rw [encode_cons]
        rfl
      have hnext : (encode others).head?.any (isAscii (· == quoteMark)) = false := by
        rw [head?_encode (fun c hc => by rw [beq_iff_eq.mp hc]; decide)]
        cases others with
        | nil => rfl
        | cons c rest => exact beq_false_of_ne fun hc => hothers rest (hc ▸ rfl)
      rw [hbytes, quoteEnd?.eq_def]
      cases hencode : encode others with
      | nil => simp only [hmark, if_true, Option.map_some]; rfl
      | cons next rest =>
          rw [hencode, List.head?_cons, Option.any_some] at hnext
          simp only [hmark, hnext, if_true, Bool.false_eq_true, if_false, Option.map_some]
          rfl
  | case4 c others _ hc ih =>
      have hne : c ≠ quoteMark := hc
      have hbytes : ∀ byte ∈ encodeChar c, isAscii (· == quoteMark) byte = false :=
        fun byte hbyte => (isAscii_quoteMark hbyte).trans (beq_false_of_ne hne)
      rw [encode_cons, quoteEnd?_skip hbytes, ih, length_encodeChar, Option.map_map]
      refine Option.map_congr fun parts _ => ?_
      exact Nat.add_assoc index c.utf8Size (utf8Length parts.1)

end Utf8

end ODataRequest
