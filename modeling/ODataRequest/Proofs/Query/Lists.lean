import ODataRequest.Proofs.Query.Primaries

/-! Lists and option values that are written out, over any reader of what nests in them. The first
part of a list is read for itself, the others after their separators, in a loop whose fuel is the
length of the text. -/

namespace ODataRequest

open Text Unicode Nesting Reader

/-! ### Lists with commas -/

section CommaLists

variable {α : Type} {item : Reader α} {render : α → Text} {reread : α → Option α} {items : List α}
  {rest : Text}

theorem moreItems_of_minus {text : Text} (h : text.head? = some '-') (fuel : Nat) :
    Derails (moreItems item fuel text) := by
  cases fuel with
  | zero => exact .of_minus h
  | succ fuel =>
      refine Derails.of_bind fun found hfound => ?_
      cases symbol?_of_minus h (by decide) hfound
      exact .of_minus h

/-- The text of the items after the first one. -/
def itemText (render : α → Text) (items : List α) : Text :=
  items.flatMap fun item => ',' :: render item

theorem ends_itemText (render : α → Text) (hrest : Ends valueMarks rest) (items : List α) :
    Ends itemMarks (itemText render items ++ rest) := by
  cases items with
  | nil => exact hrest.mono (by simp)
  | cons item items => exact Or.inr ⟨.comma, by simp, _, rfl⟩

theorem reads_moreItems
    (hitem : ∀ x ∈ items, ∀ rest, Ends itemMarks rest → ReadsAs (item (render x ++ rest)) (reread x) rest)
    (hrest : Ends valueMarks rest) {fuel : Nat} (hfuel : items.length ≤ fuel) :
    ReadsAs (moreItems item fuel (itemText render items ++ rest)) (rereadEach reread items) rest := by
  induction items generalizing fuel with
  | nil =>
      show moreItems item fuel rest = .ok ([], rest)
      cases fuel with
      | zero => rfl
      | succ fuel =>
          rw [moreItems, hrest.symbol? (by decide) (by decide)]
          rfl
  | cons first items ih =>
      obtain ⟨fuel, rfl⟩ : ∃ below, fuel = below + 1 :=
        ⟨fuel - 1, by rw [List.length_cons] at hfuel; omega⟩
      have htext : itemText render (first :: items) ++ rest =
          ',' :: (render first ++ (itemText render items ++ rest)) := by
        simp [itemText]
      have hcomma := symbol?_mark .comma (render first ++ (itemText render items ++ rest))
      have hfirst := hitem first List.mem_cons_self _ (ends_itemText render hrest items)
      have hothers := ih (fun x hx => hitem x (List.mem_cons_of_mem _ hx))
        (by rw [List.length_cons] at hfuel; omega : items.length ≤ fuel)
      rw [htext, moreItems, show ',' = Symbol.comma.char from rfl, hcomma]
      exact .cons (moreItems item fuel) hfirst hothers fun _ hminus => moreItems_of_minus hminus fuel

/-- A list is read as its items are. -/
theorem reads_commaList
    (hitem : ∀ x ∈ items, ∀ rest, Ends itemMarks rest → ReadsAs (item (render x ++ rest)) (reread x) rest)
    (hnonempty : items ≠ []) (hrest : Ends valueMarks rest) :
    ReadsAs (commaList item (joinTexts ',' (items.map render) ++ rest)) (rereadEach reread items)
      rest := by
  cases items with
  | nil => exact absurd rfl hnonempty
  | cons first items =>
      have htext : joinTexts ',' ((first :: items).map render) ++ rest =
          render first ++ (itemText render items ++ rest) := by
        rw [List.map_cons, joinTexts_cons, List.flatMap_map, List.append_assoc]
        rfl
      have hfirst := hitem first List.mem_cons_self _ (ends_itemText render hrest items)
      have hlength : items.length ≤ (itemText render items ++ rest).length := by
        have : items.length ≤ (itemText render items).length := length_le_separated ',' render items
        rw [List.length_append]
        omega
      have hothers := reads_moreItems (fun x hx => hitem x (List.mem_cons_of_mem _ hx)) hrest hlength
      rw [htext]
      exact .cons (fun text => moreItems item text.length text) hfirst hothers
        fun text hminus => moreItems_of_minus hminus text.length

end CommaLists

/-! ### Member paths -/

/-- A text before which a member path ends: no further slash, or a slash before a name of the
protocol. -/
structure EndsMembers (tail : Text) : Prop where
  breaks : Lexeme.breaks tail = true
  stop : symbol? .slash tail = .ok none ∨ ∃ after word start rest,
    symbol? .slash tail = .ok (some after) ∧
      Lexeme.next? after = .ok (some ⟨.name word, start, rest⟩) ∧ word.head? = some '$'

namespace EndsMembers

theorem of_stops {strength : Nat} {tail : Text} (h : Stops strength tail) : EndsMembers tail :=
  ⟨h.breaks, Or.inl (h.symbol? (Or.inl rfl))⟩

theorem of_control {control rest : Text} (hname : Lexeme.isName control = true)
    (hcontrol : control.head? = some '$') (hrest : Lexeme.breaks rest = true) :
    EndsMembers ('/' :: control ++ rest) :=
  ⟨rfl, Or.inr ⟨_, _, _, _, symbol?_mark .slash (control ++ rest), Lexeme.next?_name hname hrest,
    hcontrol⟩⟩

end EndsMembers

theorem memberNames_members {head : Text} {members : List Text} {tail : Text} {fuel : Nat}
    (hhead : isMember head = true) (hmembers : members.all isMember = true) (htail : EndsMembers tail)
    (hfuel : members.length ≤ fuel) :
    memberNames fuel (head ++ (memberText members ++ tail)) = .ok (head :: members, tail) := by
  induction members generalizing head fuel with
  | nil =>
      have hnext := Lexeme.next?_name (isName_of_isMember hhead) htail.breaks
      show memberNames fuel (head ++ tail) = _
      rw [memberNames.eq_def]
      dsimp only
      rw [name_of_next? hnext]
      show (checkMember head _ >>= _) = _
      rw [checkMember_of_isMember hhead]
      rcases htail.stop with hstop | ⟨after, word, start, rest, hslash, hafter, hword⟩
      · show (symbol? .slash tail >>= _) = _
        rw [hstop]
        rfl
      · show (symbol? .slash tail >>= _) = _
        rw [hslash]
        show (Lexeme.next? after >>= _) = _
        rw [hafter]
        exact if_pos hword
  | cons member members ih =>
      rw [List.all_cons, Bool.and_eq_true] at hmembers
      obtain ⟨fuel, rfl⟩ : ∃ below, fuel = below + 1 :=
        ⟨fuel - 1, by rw [List.length_cons] at hfuel; omega⟩
      have htext : memberText (member :: members) ++ tail =
          '/' :: (member ++ (memberText members ++ tail)) := by
        simp [memberText]
      have hbreaks : Lexeme.breaks (memberText members ++ tail) = true := by
        cases members with
        | nil => exact htail.breaks
        | cons next members => rfl
      have hnext : Lexeme.next? (head ++ '/' :: (member ++ (memberText members ++ tail))) = _ :=
        Lexeme.next?_name (isName_of_isMember hhead) rfl
      have hmember := Lexeme.next?_name (isName_of_isMember hmembers.1) hbreaks
      have hprotocol : ¬member.head? = some '$' := by
        have h := hmembers.1
        simp only [isMember, Bool.and_eq_true, bne_iff_ne, ne_eq] at h
        exact h.2
      have hslash : symbol? .slash ('/' :: (member ++ (memberText members ++ tail))) = _ :=
        symbol?_mark .slash _
      rw [htext, memberNames.eq_def]
      simp only [name_of_next? hnext, ok_bind, checkMember_of_isMember hhead, hslash, hmember,
        if_neg hprotocol]
      rw [ih hmembers.1 hmembers.2 (by rw [List.length_cons] at hfuel; omega)]
      rfl

theorem memberPath_route {route : PropertyAccess} {tail : Text} (h : route.IsMemberPath)
    (htail : EndsMembers tail) : memberPath (route.render ++ tail) = .ok (route, tail) := by
  obtain ⟨qualifier, path⟩ := route
  obtain ⟨hbare, hnonempty, hmembers⟩ := h
  cases hbare
  cases path with
  | nil => exact absurd rfl hnonempty
  | cons head members =>
      replace hmembers : (head :: members).all isMember = true := hmembers
      rw [List.all_cons, Bool.and_eq_true] at hmembers
      have hrender : (PropertyAccess.mk none (head :: members)).render = head ++ memberText members :=
        joinTexts_cons '/' _ _
      rw [hrender, List.append_assoc, memberPath, memberNames_members hmembers.1 hmembers.2 htail]
      · rfl
      · have : members.length ≤ (memberText members).length := length_le_separated '/' id members
        rw [List.length_append, List.length_append]
        omega

theorem controlSegment?_control {control rest : Text} (hname : Lexeme.isName control = true)
    (hrest : Lexeme.breaks rest = true) :
    controlSegment? control ('/' :: control ++ rest) = .ok (some rest) := by
  have hslash : symbol? .slash ('/' :: (control ++ rest)) = _ := symbol?_mark .slash _
  rw [controlSegment?, List.cons_append, hslash]
  exact word?_of_name (Lexeme.next?_name hname hrest)

theorem controlSegment?_other {control other rest : Text} (hname : Lexeme.isName other = true)
    (hother : other ≠ control) (hrest : Lexeme.breaks rest = true) :
    controlSegment? control ('/' :: other ++ rest) = .ok none := by
  have hslash : symbol? .slash ('/' :: (other ++ rest)) = _ := symbol?_mark .slash _
  rw [controlSegment?, List.cons_append, hslash]
  exact word?_of_name_ne hother (Lexeme.next?_name hname hrest)

theorem controlSegment?_none {control tail : Text} (h : symbol? .slash tail = .ok none) :
    controlSegment? control tail = .ok none := by
  rw [controlSegment?, h]
  rfl

end ODataRequest
