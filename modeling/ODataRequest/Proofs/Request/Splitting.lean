import ODataRequest.Proofs.Query.Soundness
import ODataRequest.Proofs.Request.Pairs
import ODataRequest.Query.Equality

/-! Where the value of an expression option ends. The grammar and the scan for the next separator of
pairs are two scanners of their own; what the grammar accepts as a whole is closed against the scan,
so that neither cuts the value short nor takes the separator behind it. Main statement: a request
whose first pair is an expression option with an accepted value has that very pair, and its other
pairs are those of the text behind the separator. -/

namespace ODataRequest

open Text Nesting Grammar

/-- A text that the grammar accepts as the value of an expression option is closed. -/
theorem OptionValue.closed_of_parse {option : SystemOption} {text : Text} {maxDepth : Nat}
    {value : OptionValue} (h : OptionValue.parse option text maxDepth = .ok value)
    (hoption : option.isExpression = true) : Closed separates text := by
  obtain ⟨rest, hread, hblank⟩ := eq_ok_of_readWhole (eq_ok_of_mapError h)
  obtain ⟨-, hpasses⟩ :=
    optionValue_spec (nested_sound maxDepth) (fun hnil => absurd rfl hnil) hread
  obtain ⟨taken, rfl, htaken⟩ := hpasses (Or.inl hoption)
  exact Closed.append htaken (Lexeme.blank_closed hblank)

namespace RawRequest

/-- The error of a system option that is repeated. -/
def repeated (option : SystemOption) : MalformedOption :=
  ⟨option.name, 0, .distinctOption, some option.name⟩

/-- How the pairs of a text change when a system option has been read before: they stay as they are
unless one of them is of that option, and no other error is new. -/
structure Repeats (option : SystemOption) (free bound : Except MalformedOption (List QueryPair)) :
    Prop where
  ok_iff : ∀ others, bound = .ok others ↔
    free = .ok others ∧ ∀ pair ∈ others, pair.name ≠ .system option
  error : ∀ e, bound = .error e → free = .error e ∨ e = repeated option

namespace Repeats

variable {option : SystemOption}

theorem nil : Repeats option (.ok []) (.ok []) where
  ok_iff := by
    intro others
    constructor
    · rintro ⟨⟩
      exact ⟨rfl, by simp⟩
    · exact fun h => h.1
  error := fun e h => by cases h

/-- The same computation before both. -/
theorem bind {α : Type} {first : Except MalformedOption α}
    {free bound : α → Except MalformedOption (List QueryPair)}
    (h : ∀ value, first = .ok value → Repeats option (free value) (bound value)) :
    Repeats option (first >>= free) (first >>= bound) := by
  cases first with
  | error e =>
      refine ⟨fun others => ?_, fun e' he => Or.inl he⟩
      constructor
      · rintro ⟨⟩
      · exact fun h => h.1
  | ok value => exact h value rfl

/-- A further pair that is not of the option. -/
theorem cons {free bound : Except MalformedOption (List QueryPair)} {pair : QueryPair}
    (h : Repeats option free bound) (hpair : pair.name ≠ .system option) :
    Repeats option (free >>= fun others => .ok (pair :: others))
      (bound >>= fun others => .ok (pair :: others)) where
  ok_iff := by
    intro others
    rw [bind_eq_ok, bind_eq_ok]
    constructor
    · rintro ⟨rest, hrest, ⟨⟩⟩
      obtain ⟨hfree, hall⟩ := (h.ok_iff rest).mp hrest
      exact ⟨⟨rest, hfree, rfl⟩, List.forall_mem_cons.mpr ⟨hpair, hall⟩⟩
    · rintro ⟨⟨rest, hrest, ⟨⟩⟩, hall⟩
      exact ⟨rest, (h.ok_iff rest).mpr ⟨hrest, (List.forall_mem_cons.mp hall).2⟩, rfl⟩
  error := by
    intro e he
    cases bound with
    | ok others => cases he
    | error _ =>
        cases he
        rcases h.error e rfl with hfree | hrepeated
        · exact Or.inl (by rw [hfree]; rfl)
        · exact Or.inr hrepeated

/-- A pair of the option itself. -/
theorem of_repeated {free : Except MalformedOption (List QueryPair)}
    (h : ∀ others, free = .ok others → ∃ pair ∈ others, pair.name = .system option) :
    Repeats option free (.error (repeated option)) where
  ok_iff := by
    intro others
    constructor
    · rintro ⟨⟩
    · rintro ⟨hfree, hall⟩
      obtain ⟨pair, hmem, hname⟩ := h others hfree
      exact absurd hname (hall pair hmem)
  error := by
    rintro e ⟨⟩
    exact Or.inr rfl

end Repeats

theorem pairs_repeats {option : SystemOption} {fuel : Nat} {seen seen' : List QueryOptionName}
    (hseen : ∀ name, name ∈ seen' ↔ name = .system option ∨ name ∈ seen) (text : Text) :
    Repeats option (pairs fuel seen text) (pairs fuel seen' text) := by
  induction fuel generalizing seen seen' text with
  | zero => exact .nil
  | succ fuel ih =>
      cases text with
      | nil => exact .nil
      | cons c text =>
          rw [pairs_cons, pairs_cons]
          dsimp only
          split
          · exact ih hseen _
          refine .bind fun decoded _ => .bind fun name _ => ?_
          by_cases hname : name = .system option
          · have hbound : checkDistinct seen' name = .error (repeated option) := by
              rw [hname]
              exact if_pos ((hseen _).mpr (Or.inl rfl))
            rw [hbound]
            refine .of_repeated fun others hothers => ?_
            obtain ⟨_, -, hothers⟩ := bind_eq_ok.mp hothers
            obtain ⟨value, -, hothers⟩ := bind_eq_ok.mp hothers
            obtain ⟨rest, -, hothers⟩ := bind_eq_ok.mp hothers
            cases hothers
            exact ⟨_, List.mem_cons_self, hname⟩
          · have hmem : name ∈ seen' ↔ name ∈ seen := by
              rw [hseen]
              exact or_iff_right hname
            rw [checkDistinct_congr hmem]
            refine .bind fun _ _ => .bind fun value _ => .cons (ih (fun other => ?_) _) hname
            rw [List.mem_cons, List.mem_cons, hseen]
            exact or_left_comm

/-! ### The first pair of a request -/

variable {option : SystemOption}

theorem ne_levels_of_isExpression (h : option.isExpression = true) : option ≠ .levels := by
  rintro rfl
  cases h

theorem not_mem_name (option : SystemOption) : '%' ∉ option.name ∧ '#' ∉ option.name := by
  cases option <;> decide

theorem name_isNameChar (option : SystemOption) :
    option.name ≠ [] ∧ option.name.all isNameChar = true := by
  cases option <;> decide

/-- The value of an expression option ends before the separator behind it. -/
theorem spanValue_of_parse {raw rest : Text} {maxDepth : Nat} {value : OptionValue}
    (hoption : option.isExpression = true)
    (hvalue : OptionValue.parse option raw maxDepth = .ok value) (hrest : EndsPair rest) :
    spanValue (.system option) (raw ++ rest) = (raw, rest) := by
  have hclosed := OptionValue.closed_of_parse hvalue hoption
  rw [spanValue.eq_def]
  dsimp only
  rw [if_pos hoption, spanTopLevel_closed rfl hclosed hrest]

theorem pairs_first {raw tail : Text} {maxDepth : Nat} {value : OptionValue}
    (hoption : option.isExpression = true)
    (hvalue : OptionValue.parse option raw maxDepth = .ok value) (hpercent : '%' ∉ raw) :
    pairs (option.name ++ '=' :: (raw ++ '&' :: tail)).length []
        (option.name ++ '=' :: (raw ++ '&' :: tail)) =
      pairs tail.length [.system option] tail >>= fun others =>
        .ok (⟨.system option, raw⟩ :: others) := by
  obtain ⟨hraw, hchars⟩ := name_isNameChar option
  have hspan := spanValue_of_parse hoption hvalue (Or.inr ⟨tail, rfl⟩)
  have hlength : tail.length ≤ (option.name ++ '=' :: (raw ++ '&' :: tail)).length := by
    simp only [List.length_append, List.length_cons]
    omega
  rw [← pairs_succ (Nat.le_refl _), pairs_nameValue hraw hchars (decode_bare (not_mem_name option).1)
    (parse_system (ne_levels_of_isExpression hoption)) hspan (decode_bare hpercent)]
  show pairs _ [.system option] tail >>= _ = _
  rw [pairs_fuel hlength]

/-- **Splitter and grammar agree on the end of a value.** Where the grammar accepts a text without
escapes as the value of an expression option, the scan ends the value at exactly that text. The
request has this pair first and then the pairs of the text behind the separator; it is rejected only
for an error of those, or because one of them repeats the option. -/
theorem parse_expressionPair {path raw tail : Text} {maxDepth : Nat} {value : OptionValue}
    (hoption : option.isExpression = true)
    (hvalue : OptionValue.parse option raw maxDepth = .ok value)
    (hpercent : '%' ∉ raw) (hfragment : '#' ∉ raw) (hpath : '?' ∉ path ∧ '#' ∉ path)
    (htail : '#' ∉ tail) :
    spanValue (.system option) (raw ++ '&' :: tail) = (raw, '&' :: tail) ∧
      (∀ request, parse (path ++ '?' :: (option.name ++ '=' :: (raw ++ '&' :: tail))) = .ok request ↔
        ∃ others, parse ('?' :: tail) = .ok ⟨[], others⟩ ∧
          (∀ pair ∈ others, pair.name ≠ .system option) ∧
          request = ⟨path, ⟨.system option, raw⟩ :: others⟩) ∧
      ∀ e, parse (path ++ '?' :: (option.name ++ '=' :: (raw ++ '&' :: tail))) = .error e →
        parse ('?' :: tail) = .error e ∨ e = repeated option := by
  have hquery : '#' ∉ option.name ++ '=' :: (raw ++ '&' :: tail) := by
    simp only [List.mem_append, List.mem_cons, not_or]
    exact ⟨(not_mem_name option).2, by decide, hfragment, by decide, htail⟩
  have hfree : parse ('?' :: tail) =
      pairs tail.length [] tail >>= fun pairs => .ok ⟨[], pairs⟩ :=
    parse_query List.not_mem_nil List.not_mem_nil htail
  have hrepeats : Repeats option (pairs tail.length [] tail) (pairs tail.length [.system option] tail) :=
    pairs_repeats (by simp) tail
  rw [parse_query hpath.1 hpath.2 hquery, pairs_first hoption hvalue hpercent, hfree]
  refine ⟨spanValue_of_parse hoption hvalue (Or.inr ⟨tail, rfl⟩), ?_, ?_⟩
  · intro request
    constructor
    · intro hok
      obtain ⟨all, hall, hok⟩ := bind_eq_ok.mp hok
      obtain ⟨others, hothers, hall⟩ := bind_eq_ok.mp hall
      obtain ⟨hpairs, hfresh⟩ := (hrepeats.ok_iff others).mp hothers
      cases hall
      cases hok
      exact ⟨others, by rw [hpairs]; rfl, hfresh, rfl⟩
    · rintro ⟨others, hothers, hfresh, rfl⟩
      obtain ⟨all, hall, heq⟩ := bind_eq_ok.mp hothers
      cases heq
      rw [(hrepeats.ok_iff others).mpr ⟨hall, hfresh⟩]
      rfl
  · intro e he
    cases hbound : pairs tail.length [.system option] tail with
    | ok others =>
        rw [hbound] at he
        cases he
    | error e' =>
        rw [hbound] at he
        cases he
        rcases hrepeats.error e hbound with herror | hrepeated
        · exact Or.inl (by rw [herror]; rfl)
        · exact Or.inr hrepeated

theorem parse_expressionPair_quoted :
    spanValue (.system .filter) ("Name eq 'a&b'".toList ++ '&' :: "$top=5".toList) =
        ("Name eq 'a&b'".toList, '&' :: "$top=5".toList) ∧
      parse ("Products".toList ++
          '?' :: ("$filter".toList ++ '=' :: ("Name eq 'a&b'".toList ++ '&' :: "$top=5".toList))) =
        .ok ⟨"Products".toList,
          [⟨.system .filter, "Name eq 'a&b'".toList⟩, ⟨.system .top, "5".toList⟩]⟩ := by
  have hvalue : OptionValue.parse .filter "Name eq 'a&b'".toList 1 =
      .ok (.filter (.binary .eq (.access ⟨none, ["Name".toList]⟩) (.literal (.string "a&b".toList)))) := by
    decide +kernel
  have hpath : '?' ∉ "Products".toList ∧ '#' ∉ "Products".toList := by decide
  have htail : '#' ∉ "$top=5".toList := by decide
  obtain ⟨hspan, hok, -⟩ := parse_expressionPair rfl hvalue (by decide) (by decide) hpath htail
  refine ⟨hspan, (hok _).mpr ⟨[⟨.system .top, "5".toList⟩], ?_, ?_, rfl⟩⟩
  · decide +kernel
  · decide +kernel

end RawRequest

end ODataRequest
