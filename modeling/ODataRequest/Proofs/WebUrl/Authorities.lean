import ODataRequest.Proofs.WebUrl.Hosts

/-! Authorities in their normal form. Credentials are escaped, so that the marks around them are found
where they were written; the host is read as itself; and a port is only written if it is not the port of
the scheme. -/

namespace ODataRequest

open Text Percent

namespace WebUrl

variable {scheme text rest credentials : Text} {port : Option Nat} {number : Nat} {authority : Authority}

/-! ### Credentials -/

/-- A port that is written: one that fits, and not that of the scheme. -/
def IsPort (scheme : Text) (number : Nat) : Prop :=
  number ≤ 65535 ∧ defaultPort? scheme ≠ some number

def portText (port : Option Nat) : Text :=
  match port with
  | some number => ':' :: Text.ofNat number
  | none => []

theorem inner_of_mem_portText {c : Char} (h : c ∈ portText port) : IsInner c ∧ c ≠ '@' := by
  cases port with
  | none => cases h
  | some number =>
      rcases List.mem_cons.mp h with rfl | h
      · decide
      · have hdigit := Host.isDigit_of_mem_ofNat h
        have hlt : c.toNat < 0x80 := Nat.lt_of_le_of_lt (Unicode.isDigit_iff.mp hdigit).2 (by decide)
        have hall : c.isDigit = true → IsInner c ∧ c ≠ '@' := by
          apply of_ascii c hlt
          decide
        exact hall hdigit

/-! ### Authorities -/

/-- The host that a text is for a scheme. -/
def readHost (scheme : Text) : Text → Option Text :=
  if isSpecial scheme then Host.parse? else Host.parseUninterpreted?

end WebUrl

open WebUrl

/-- An authority that is read as itself. -/
structure Authority.Normal (scheme : Text) (authority : Authority) : Prop where
  host : Host.Normal (readHost scheme) authority.host
  credentials : ∀ credentials, authority.credentials = some credentials →
    credentials? credentials = some credentials ∧ ∀ c ∈ credentials, IsInner c ∧ c ≠ '@'
  port : ∀ number, authority.port = some number → IsPort scheme number
  bare : authority.host = [] → authority.credentials = none ∧ authority.port = none

namespace WebUrl

variable {scheme text rest : Text} {authority : Authority}

end WebUrl

namespace Authority

variable {scheme : Text} {authority : Authority}

theorem render_eq (authority : Authority) : authority.render =
    (match authority.credentials with
      | some credentials => credentials ++ ['@']
      | none => []) ++ (authority.host ++ portText authority.port) := by
  rw [render, List.append_assoc]
  rfl

namespace Normal

theorem inner (h : authority.Normal scheme) : ∀ c ∈ authority.render, IsInner c := by
  intro c hmem
  rw [render_eq] at hmem
  rcases List.mem_append.mp hmem with hmem | hmem
  · cases hcredentials : authority.credentials with
    | none =>
        rw [hcredentials] at hmem
        cases hmem
    | some credentials =>
        rw [hcredentials] at hmem
        rcases List.mem_append.mp hmem with hmem | hmem
        · exact ((h.credentials credentials hcredentials).2 c hmem).1
        · rw [List.mem_singleton.mp hmem]
          decide
  · rcases List.mem_append.mp hmem with hmem | hmem
    · exact (h.host.inner c hmem).1
    · exact (inner_of_mem_portText hmem).1

end Normal

end Authority

end ODataRequest
