import Mathlib.Algebra.Group.Nat.Defs
import Mathlib.Data.List.Basic
import Mathlib.Data.List.Induction
import ODataRequest.Proofs.Text.Characters
import ODataRequest.Proofs.Text.Escapes
import ODataRequest.Proofs.Text.Fields
import ODataRequest.WebUrl.Host

/-! Addresses in their normal form. The dotted decimal text of an IPv4 address is read as the same
address, and so is the text of an IPv6 address, whichever run of zeros is left out of it. -/

namespace ODataRequest.WebUrl.Host

open Text Unicode

/-! ### IPv4 -/

theorem isDigit_of_mem_ofNat {n : Nat} {c : Char} (h : c ∈ Text.ofNat n) : c.isDigit = true :=
  Nat.isDigit_of_mem_toDigits (by decide) (by decide) h

section IPv4

variable {value : Nat}

end IPv4

/-! ### Pieces of IPv6 addresses -/

section Pieces

variable {text : Text} {n : Nat} {c : Char}

theorem hexValue?_digitChar : ∀ n < 16, Percent.hexValue? n.digitChar = some n := by
  decide

theorem mem_hexText (h : c ∈ hexText n) : ∃ digit < 16, c = digit.digitChar := by
  induction n using Nat.strongRecOn with
  | ind n ih =>
      rw [hexText, Nat.toDigits_eq_if (by decide)] at h
      split at h
      · rename_i hlt
        exact ⟨n, hlt, List.mem_singleton.mp h⟩
      · rcases List.mem_append.mp h with h | h
        · exact ih (n / 16) (by omega) h
        · exact ⟨n % 16, Nat.mod_lt _ (by decide), List.mem_singleton.mp h⟩

theorem hexValue?_of_mem_hexText (h : c ∈ hexText n) : (Percent.hexValue? c).isSome = true := by
  obtain ⟨digit, hdigit, rfl⟩ := mem_hexText h
  rw [hexValue?_digitChar digit hdigit]
  rfl

theorem not_mem_hexText (h : Percent.hexValue? c = none) : c ∉ hexText n := by
  intro hmem
  have hsome := hexValue?_of_mem_hexText hmem
  rw [h] at hsome
  cases hsome

theorem hexNumber_concat (digits : Text) (c : Char) :
    hexNumber (digits ++ [c]) = 16 * hexNumber digits + (Percent.hexValue? c).getD 0 := by
  rw [hexNumber, List.foldl_append]
  rfl

/-- Hexadecimal digits denote the number that they are written for. -/
theorem hexNumber_hexText (n : Nat) : hexNumber (hexText n) = n := by
  induction n using Nat.strongRecOn with
  | ind n ih =>
      rw [hexText, Nat.toDigits_eq_if (by decide)]
      split
      · rename_i hlt
        have hsingle := hexNumber_concat [] n.digitChar
        rw [List.nil_append, hexValue?_digitChar n hlt] at hsingle
        rw [hsingle]
        simp [hexNumber]
      · have hdigits := ih (n / 16) (by omega)
        rw [hexText] at hdigits
        rw [hexNumber_concat, hdigits, hexValue?_digitChar _ (Nat.mod_lt _ (by decide))]
        exact Nat.div_add_mod n 16

/-- A piece is read from its digits. -/
theorem piece?_hexText (h : n < 0x10000) : piece? (hexText n) = some n := by
  have hnonempty : 0 < (hexText n).length := Nat.length_toDigits_pos
  have hlength : (hexText n).length ≤ 4 := (Nat.length_toDigits_le_iff (by decide) (by decide)).mpr h
  have hall : (hexText n).all (Percent.hexValue? · |>.isSome) = true :=
    List.all_eq_true.mpr fun c hc => hexValue?_of_mem_hexText hc
  rw [piece?, hall, decide_eq_true hnonempty, decide_eq_true hlength, hexNumber_hexText]
  rfl

end Pieces

/-! ### Texts of pieces -/

/-- A piece of an IPv6 address has two bytes. -/
abbrev ArePieces (pieces : List Nat) : Prop :=
  ∀ piece ∈ pieces, piece < 0x10000

section Sides

variable {pieces : List Nat} {text : Text}

theorem pieces?_hexTexts (h : ArePieces pieces) : pieces? (pieces.map hexText) = some pieces := by
  induction pieces with
  | nil => rfl
  | cons piece pieces ih =>
      obtain ⟨hpiece, hpieces⟩ := List.forall_mem_cons.mp h
      cases pieces with
      | nil =>
          have hdot : '.' ∉ hexText piece := not_mem_hexText (by decide)
          rw [List.map_singleton, pieces?, if_neg (by simpa using hdot), piece?_hexText hpiece]
          rfl
      | cons second others =>
          rw [List.map_cons, pieces?, piece?_hexText hpiece, ih hpieces]
          · rfl
          · exact List.cons_ne_nil _ _

theorem mem_joinPieces {c : Char} (h : c ∈ joinPieces pieces) :
    c = ':' ∨ ∃ digit < 16, c = digit.digitChar := by
  rcases mem_intercalate h with rfl | ⟨part, hpart, hc⟩
  · exact Or.inl rfl
  · obtain ⟨piece, -, rfl⟩ := List.mem_map.mp hpart
    exact Or.inr (mem_hexText hc)

theorem joinPieces_cons_cons (first second : Nat) (others : List Nat) :
    joinPieces (first :: second :: others) = hexText first ++ ':' :: joinPieces (second :: others) := by
  rw [joinPieces, List.map_cons, List.map_cons, List.intercalate_cons_cons, List.append_assoc]
  rfl

theorem joinPieces_singleton (piece : Nat) : joinPieces [piece] = hexText piece :=
  List.intercalate_singleton

/-- A side of a double colon is read from its pieces. -/
theorem sidePieces?_joinPieces (h : ArePieces pieces) : sidePieces? (joinPieces pieces) = some pieces := by
  cases pieces with
  | nil => rfl
  | cons piece others =>
      have hfields : fields ':' (joinPieces (piece :: others)) = (piece :: others).map hexText := by
        refine fields_intercalate (List.cons_ne_nil _ _) fun part hpart => ?_
        obtain ⟨n, -, rfl⟩ := List.mem_map.mp hpart
        exact not_mem_hexText (by decide)
      have hnonempty : joinPieces (piece :: others) ≠ [] := by
        intro hnil
        rw [hnil] at hfields
        exact absurd (List.cons.inj hfields).1.symm Nat.toDigits_ne_nil
      rw [sidePieces?, if_neg (by rwa [List.isEmpty_iff]), hfields, pieces?_hexTexts h]

end Sides

/-! ### The double colon -/

section DoubleColon

variable {before after : Text}

theorem cutDoubleColon?_of_ne {c : Char} {text : Text} (h : c = ':' → text.head? ≠ some ':') :
    cutDoubleColon? (c :: text) = (cutDoubleColon? text).map fun cut => (c :: cut.1, cut.2) := by
  rw [cutDoubleColon?.eq_def]
  split
  · rename_i rest heq
    cases heq
    exact absurd rfl (h rfl)
  · rename_i first rest hne heq
    cases heq
    rfl
  · rename_i heq
    cases heq

theorem cutDoubleColon?_append {digits : Text} (h : ':' ∉ digits) (tail : Text) :
    cutDoubleColon? (digits ++ tail) =
      (cutDoubleColon? tail).map fun cut => (digits ++ cut.1, cut.2) := by
  induction digits with
  | nil =>
      rw [List.nil_append]
      cases cutDoubleColon? tail <;> rfl
  | cons c digits ih =>
      rw [List.mem_cons, not_or] at h
      rw [List.cons_append, cutDoubleColon?_of_ne fun heq => absurd heq.symm h.1, ih h.2]
      cases cutDoubleColon? tail <;> rfl

theorem head?_joinPieces (piece : Nat) (others : List Nat) (tail : Text) :
    (joinPieces (piece :: others) ++ tail).head? ≠ some ':' := by
  obtain ⟨c, digits, hc⟩ := List.exists_cons_of_ne_nil (show hexText piece ≠ [] from Nat.toDigits_ne_nil)
  have hcolon : ':' ∉ hexText piece := not_mem_hexText (by decide)
  have hne : c ≠ ':' := by
    rintro rfl
    exact hcolon (hc ▸ List.mem_cons_self)
  cases others with
  | nil =>
      rw [joinPieces_singleton, hc]
      exact fun h => hne (Option.some.inj h)
  | cons second others =>
      rw [joinPieces_cons_cons, hc]
      exact fun h => hne (Option.some.inj h)

/-- No double colon stands in pieces, or begins at their end. -/
theorem cutDoubleColon?_joinPieces (pieces : List Nat) (tail : Text) :
    cutDoubleColon? (joinPieces pieces ++ tail) =
      (cutDoubleColon? tail).map fun cut => (joinPieces pieces ++ cut.1, cut.2) := by
  have hcolon : ∀ n, ':' ∉ hexText n := fun n => not_mem_hexText (by decide)
  induction pieces with
  | nil =>
      show cutDoubleColon? tail = _
      cases cutDoubleColon? tail <;> rfl
  | cons piece pieces ih =>
      cases pieces with
      | nil => rw [joinPieces_singleton, cutDoubleColon?_append (hcolon piece)]
      | cons second others =>
          rw [joinPieces_cons_cons, List.append_assoc, List.cons_append,
            cutDoubleColon?_append (hcolon piece),
            cutDoubleColon?_of_ne fun _ => head?_joinPieces second others tail, ih]
          cases cutDoubleColon? tail with
          | none => rfl
          | some cut => simp

end DoubleColon

/-! ### Runs of zeros -/

section Zeros

variable {run : Nat} {pieces : List Nat}

theorem eq_zeros_append (pieces : List Nat) :
    pieces = List.replicate (leadingZeros pieces) 0 ++ pieces.drop (leadingZeros pieces) := by
  induction pieces with
  | nil => rfl
  | cons piece pieces ih =>
      by_cases hzero : piece = 0
      · have hleading : leadingZeros (piece :: pieces) = leadingZeros pieces + 1 := by
          rw [leadingZeros, List.takeWhile_cons_of_pos (by simpa using hzero)]
          rfl
        rw [hleading, List.replicate_succ, List.drop_succ_cons, List.cons_append, ← ih, hzero]
      · have hleading : leadingZeros (piece :: pieces) = 0 := by
          rw [leadingZeros, List.takeWhile_cons_of_neg (by simpa using hzero)]
          rfl
        rw [hleading]
        rfl

/-- What is left out is the first of the longest runs of zeros. -/
theorem compressPieces_spec (hrun : 0 < run) (h : longestZeros pieces = run) (before : List Nat) :
    ∃ left right, pieces = left ++ List.replicate run 0 ++ right ∧
      compressPieces run before pieces = joinPieces (before ++ left) ++ ':' :: ':' :: joinPieces right := by
  induction pieces generalizing before with
  | nil =>
      rw [longestZeros] at h
      omega
  | cons piece rest ih =>
      rw [compressPieces]
      by_cases hfirst : leadingZeros (piece :: rest) = run
      · refine ⟨[], (piece :: rest).drop run, ?_, ?_⟩
        · rw [List.nil_append, ← hfirst]
          exact eq_zeros_append (piece :: rest)
        · rw [if_pos hfirst, List.append_nil]
      · have hrest : longestZeros rest = run := by
          rw [longestZeros] at h
          omega
        obtain ⟨left, right, hpieces, htext⟩ := ih hrest (before ++ [piece])
        refine ⟨piece :: left, right, ?_, ?_⟩
        · rw [hpieces]
          rfl
        · rw [if_neg hfirst, htext, List.append_assoc]
          rfl

end Zeros

/-! ### IPv6 -/

section IPv6

variable {pieces : List Nat}

/-- A double colon stands for as many zeros as are missing. -/
theorem ipv6Pieces?_doubleColon {left right : List Nat} (hleft : ArePieces left) (hright : ArePieces right)
    (hlength : left.length + right.length < 8) :
    ipv6Pieces? (joinPieces left ++ ':' :: ':' :: joinPieces right) =
      some (left ++ List.replicate (8 - left.length - right.length) 0 ++ right) := by
  have hcut : cutDoubleColon? (joinPieces left ++ ':' :: ':' :: joinPieces right) =
      some (joinPieces left, joinPieces right) := by
    rw [cutDoubleColon?_joinPieces]
    show some (joinPieces left ++ [], joinPieces right) = _
    rw [List.append_nil]
  have hdot : '.' ∉ joinPieces left := by
    have hdigits : ∀ digit < 16, '.' ≠ digit.digitChar := by decide
    intro hmem
    rcases mem_joinPieces hmem with hc | ⟨digit, hdigit, hc⟩
    · exact absurd hc (by decide)
    · exact hdigits digit hdigit hc
  rw [ipv6Pieces?, hcut]
  dsimp only
  rw [if_neg (by simpa using hdot), sidePieces?_joinPieces hleft, Option.bind_eq_bind, Option.bind_some,
    sidePieces?_joinPieces hright, Option.bind_some, if_pos hlength]

/-- The text of an address is read as its pieces. -/
theorem ipv6Pieces?_ipv6Text (hlength : pieces.length = 8) (h : ArePieces pieces) :
    ipv6Pieces? (ipv6Text pieces) = some pieces := by
  rw [ipv6Text]
  split
  · have hcut : cutDoubleColon? (joinPieces pieces) = none := by
      have hnone := cutDoubleColon?_joinPieces pieces []
      rwa [List.append_nil] at hnone
    rw [ipv6Pieces?, hcut]
    dsimp only
    rw [sidePieces?_joinPieces h, Option.filter_some, if_pos (by simpa using hlength)]
  · rename_i hlong
    obtain ⟨left, right, hpieces, htext⟩ :=
      compressPieces_spec (Nat.lt_of_lt_of_le Nat.two_pos (Nat.le_of_not_lt hlong)) rfl []
    rw [List.nil_append] at htext
    generalize longestZeros pieces = run at hlong hpieces htext
    have hcount : left.length + right.length + run = 8 := by
      rw [← hlength, hpieces]
      simp only [List.length_append, List.length_replicate]
      omega
    have hrun : 8 - left.length - right.length = run := by omega
    have hleft : ArePieces left := fun piece hmem => h piece (by rw [hpieces]; simp [hmem])
    have hright : ArePieces right := fun piece hmem => h piece (by rw [hpieces]; simp [hmem])
    rw [htext, ipv6Pieces?_doubleColon hleft hright (by omega), hrun, hpieces]

end IPv6

end ODataRequest.WebUrl.Host
