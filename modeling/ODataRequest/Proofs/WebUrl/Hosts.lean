import ODataRequest.Proofs.WebUrl.Addresses
import ODataRequest.Proofs.WebUrl.Characters

/-! Hosts in their normal form. Every host that is read is a name or an address which is read as itself,
and nothing in it ends it before its port. -/

namespace ODataRequest.WebUrl

open Text Unicode

namespace Host

variable {text host rest : Text}

/-! ### The extent of a host -/

/-- What may follow a host within its authority: nothing, or a port. -/
abbrev BeginsPort (rest : Text) : Prop :=
  rest.head?.all (· = ':') = true

/-- A host that is read as itself, where nothing in it ends it or its authority. -/
structure Normal (read : Text → Option Text) (host : Text) : Prop where
  reread : read host = some host
  inner : ∀ c ∈ host, IsInner c ∧ c ≠ '@'
  span : ∀ rest, BeginsPort rest → spanHost false (host ++ rest) = (host, rest)

/-- An IPv6 address in brackets. -/
def IsBracketed (host : Text) : Prop :=
  ∃ pieces : List Nat, pieces.length = 8 ∧ ArePieces pieces ∧ host = '[' :: ipv6Text pieces ++ [']']

namespace IsBracketed

theorem bracketed? (h : IsBracketed host) : bracketed? host = some host := by
  obtain ⟨pieces, hlength, hbytes, rfl⟩ := h
  have hbefore : before? ']' ('[' :: ipv6Text pieces ++ [']']).tail = some (ipv6Text pieces) := by
    rw [List.cons_append, List.tail_cons, before?, if_pos List.getLast?_concat, List.dropLast_concat]
  rw [Host.bracketed?, hbefore, Option.bind_eq_bind, Option.bind_some,
    ipv6Pieces?_ipv6Text hlength hbytes]
  rfl

theorem head? (h : IsBracketed host) : host.head? = some '[' := by
  obtain ⟨pieces, -, -, rfl⟩ := h
  rfl

end IsBracketed

/-! ### Hosts of the schemes that the rules know -/

end Host

end ODataRequest.WebUrl
