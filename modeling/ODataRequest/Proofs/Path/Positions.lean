import ODataRequest.Proofs.Path.Language

/-! Where the faults of names in paths lie. The parts of a dotted name are gone through with the number of
characters before them, and an empty part is blamed on a dot at its place. Behind a part that is not the
last one there is that dot; behind the last one there is none, so that a name that ends with a dot is
blamed one character too late. Main statement: apart from that, the position of a wrong character is where
the segment has it. -/

namespace ODataRequest

open Text

/-- One or more identifiers, with dots between them and one more dot at the end. -/
def EndsWithDot (name : Text) : Prop :=
  ∃ parts : List Text, parts ≠ [] ∧ (∀ part ∈ parts, isIdentifier part = true) ∧
    name = ['.'].intercalate parts ++ ['.']

/-- What stands in a segment before the parenthesis of a key. -/
def PathSegment.nameIn (segment : Text) : Text :=
  segment.takeWhile (· ≠ '(')

theorem PathSegment.nameIn_append {name : Text} (h : '(' ∉ name) (key : Text) :
    nameIn (name ++ '(' :: key) = name := by
  refine takeWhile_run ?_ rfl
  rw [List.all_eq_true]
  exact fun found hfound => decide_eq_true fun heq => h (heq ▸ hfound)

theorem PathSegment.nameIn_eq_self {name : Text} (h : '(' ∉ name) : nameIn name = name := by
  rw [nameIn, List.takeWhile_eq_self_iff]
  exact fun found hfound => decide_eq_true fun heq => h (heq ▸ hfound)

variable {name segment : Text} {position : Nat} {c : Char}

/-! ### Parts of names -/

/-- A misplaced character is where it is said to be. -/
theorem Identifier.getElem?_of_faultFrom {index : Nat} {text : Text}
    (h : faultFrom index text = some (position, c)) :
    ∃ place, position = index + place ∧ text[place]? = some c := by
  induction text generalizing index with
  | nil => cases h
  | cons first rest ih =>
      rw [faultFrom] at h
      by_cases hfirst : (if index = 0 then isStart first else isContinue first) = true
      · rw [if_pos hfirst] at h
        obtain ⟨place, hplace, hchar⟩ := ih h
        exact ⟨place + 1, by omega, hchar⟩
      · rw [if_neg hfirst] at h
        cases h
        exact ⟨0, rfl, rfl⟩

theorem Identifier.getElem?_of_fault? {text : Text} (h : fault? text = some (position, c)) :
    text[position]? = some c := by
  obtain ⟨place, rfl, hchar⟩ := getElem?_of_faultFrom h
  rwa [Nat.zero_add]

namespace ResourcePath

/-- The character that the parts of a name are blamed for is where it is said to be, unless the last part
is empty and nothing else is wrong. -/
theorem getElem?_of_nameFault? {offset : Nat} {parts : List Text}
    (h : nameFault? offset parts = some (position, c)) :
    (∃ place, position = offset + place ∧ (['.'].intercalate parts)[place]? = some c) ∨
      ∃ leading, parts = leading ++ [[]] ∧ ∀ part ∈ leading, isIdentifier part = true := by
  induction parts generalizing offset with
  | nil => cases h
  | cons part parts ih =>
      rw [nameFault?] at h
      by_cases hempty : part = []
      · rw [if_pos (List.isEmpty_iff.mpr hempty)] at h
        cases h
        cases parts with
        | nil => exact Or.inr ⟨[], by rw [hempty]; rfl, List.forall_mem_nil _⟩
        | cons next others =>
            refine Or.inl ⟨0, rfl, ?_⟩
            rw [hempty, List.intercalate_cons_cons]
            rfl
      rw [if_neg (by rwa [List.isEmpty_iff])] at h
      cases hfault : Identifier.fault? part with
      | some fault =>
          obtain ⟨place, found⟩ := fault
          rw [hfault] at h
          cases h
          have hchar := Identifier.getElem?_of_fault? hfault
          refine Or.inl ⟨place, rfl, ?_⟩
          cases parts with
          | nil => rwa [List.intercalate_singleton]
          | cons next others =>
              rw [List.intercalate_cons_cons, List.append_assoc,
                List.getElem?_append_left (List.getElem?_eq_some_iff.mp hchar).1]
              exact hchar
      | none =>
          rw [hfault] at h
          have hpart : isIdentifier part = true :=
            Identifier.isIdentifier_eq_true_iff.mpr ⟨hempty, hfault⟩
          obtain ⟨next, others, rfl⟩ : ∃ next others, parts = next :: others := by
            cases parts with
            | nil => cases h
            | cons next others => exact ⟨next, others, rfl⟩
          rcases ih h with ⟨place, rfl, hchar⟩ | ⟨leading, hparts, hleading⟩
          · refine Or.inl ⟨part.length + 1 + place, by omega, ?_⟩
            have hlength : (part ++ ['.']).length = part.length + 1 := List.length_append
            rw [List.intercalate_cons_cons, List.getElem?_append_right (by omega), hlength,
              Nat.add_sub_cancel_left]
            exact hchar
          · exact Or.inr ⟨part :: leading, by rw [hparts]; rfl,
              List.forall_mem_cons.mpr ⟨hpart, hleading⟩⟩

/-- An empty part behind identifiers is blamed on a dot behind it. -/
theorem nameFault?_concat_nil {offset : Nat} {leading : List Text}
    (h : ∀ part ∈ leading, isIdentifier part = true) :
    nameFault? offset (leading ++ [[]]) =
      some (offset + (['.'].intercalate (leading ++ [[]])).length, '.') := by
  induction leading generalizing offset with
  | nil => rfl
  | cons part leading ih =>
      obtain ⟨hpart, hleading⟩ := List.forall_mem_cons.mp h
      obtain ⟨hnonempty, hfault⟩ := Identifier.isIdentifier_eq_true_iff.mp hpart
      obtain ⟨next, others, hnext⟩ : ∃ next others, leading ++ [[]] = next :: others :=
        List.exists_cons_of_ne_nil (by simp)
      rw [List.cons_append, nameFault?, if_neg (by rwa [List.isEmpty_iff]), hfault]
      dsimp only
      rw [ih hleading, hnext, List.intercalate_cons_cons]
      simp only [List.length_append, List.length_singleton, Nat.add_assoc]

/-! ### Names of segments -/

theorem nameFault?_of_endsWithDot (h : EndsWithDot name) :
    nameFault? 0 (fields '.' name) = some (name.length, '.') := by
  obtain ⟨parts, hparts, hidentifiers, rfl⟩ := h
  rw [← intercalate_concat_nil hparts]
  have hfields : fields '.' (['.'].intercalate (parts ++ [[]])) = parts ++ [[]] := by
    refine fields_intercalate (by simp) fun part hmem => ?_
    rcases List.mem_append.mp hmem with hmem | hmem
    · exact not_mem_dot (hidentifiers part hmem)
    · rw [List.mem_singleton.mp hmem]
      exact List.not_mem_nil
  rw [hfields, nameFault?_concat_nil hidentifiers, Nat.zero_add]

theorem getElem?_of_qualifiedFault (hnonempty : name ≠ []) (hends : ¬EndsWithDot name)
    (h : nameFault? 0 (fields '.' name) = some (position, c)) : name[position]? = some c := by
  rcases getElem?_of_nameFault? h with ⟨place, rfl, hchar⟩ | ⟨leading, hparts, hleading⟩
  · rwa [intercalate_fields, ← Nat.zero_add place] at hchar
  · have hname := intercalate_fields '.' name
    rw [hparts] at hname
    by_cases hnil : leading = []
    · rw [hnil] at hname
      exact absurd hname.symm hnonempty
    · rw [intercalate_concat_nil hnil] at hname
      exact absurd ⟨leading, hnil, hleading, hname.symm⟩ hends

theorem getElem?_of_plainFault (hnonempty : name ≠ []) (h : nameFault? 0 [name] = some (position, c)) :
    name[position]? = some c := by
  rcases getElem?_of_nameFault? h with ⟨place, rfl, hchar⟩ | ⟨leading, hparts, -⟩
  · rwa [List.intercalate_singleton, ← Nat.zero_add place] at hchar
  · cases leading with
    | nil => exact absurd (List.cons.inj hparts).1 hnonempty
    | cons first others => simp at hparts

/-- The error of a name shows its segment. The character stands in the name where it is said to, unless the
name is a later one that ends with a dot: then it is blamed on a dot behind the name. -/
theorem invalidIdentifier_of_nameSegment {shown : Text} {index : Nat}
    (h : nameSegment segment name index = .error (.invalidIdentifier shown c position)) :
    shown = segment ∧
      ((0 < index ∧ EndsWithDot name ∧ position = name.length ∧ c = '.') ∨
        (¬(0 < index ∧ EndsWithDot name) ∧ name[position]? = some c)) := by
  rw [nameSegment] at h
  split at h
  · cases h
  rename_i hempty
  rw [List.isEmpty_iff] at hempty
  dsimp only at h
  split at h
  rotate_left
  · cases h
  rename_i hfault
  cases h
  refine ⟨rfl, ?_⟩
  by_cases hqualified : (decide (0 < index) && name.contains '.') = true
  · rw [if_pos hqualified] at hfault
    have hindex : 0 < index := of_decide_eq_true (Bool.and_eq_true_iff.mp hqualified).1
    by_cases hends : EndsWithDot name
    · rw [nameFault?_of_endsWithDot hends] at hfault
      cases hfault
      exact Or.inl ⟨hindex, hends, rfl, rfl⟩
    · exact Or.inr ⟨fun hboth => hends hboth.2, getElem?_of_qualifiedFault hempty hends hfault⟩
  · rw [if_neg hqualified] at hfault
    refine Or.inr ⟨?_, getElem?_of_plainFault hempty hfault⟩
    rintro ⟨hindex, parts, -, -, rfl⟩
    exact hqualified (by simp [hindex])

/-! ### Segments and paths -/

/-- The key behind a name does not matter to its error. -/
theorem invalidIdentifier_of_classifySegment {style : KeyStyle} {index : Nat}
    {previous : Option PathSegment} {text : Text}
    (h : classifySegment style index previous text = .error (.invalidIdentifier segment c position)) :
    segment = text ∧ nameSegment text (PathSegment.nameIn text) index =
      .error (.invalidIdentifier segment c position) := by
  rw [classifySegment] at h
  split at h
  · cases h
  split at h
  · cases h
  split at h
  · rename_i before keyed hcut
    obtain ⟨rfl, hparen⟩ := eq_of_cutAt?_eq_some hcut
    rw [PathSegment.nameIn_append hparen]
    split at h
    · cases h
    rcases bind_eq_error h with h | ⟨owner, -, h⟩
    · exact ⟨(invalidIdentifier_of_nameSegment h).1, h⟩
    · rcases bind_eq_error h with h | ⟨_, -, h⟩
      · rw [KeyPredicate.parse] at h
        cases hkey : KeyPredicate.read _ with
        | ok _ =>
            rw [hkey] at h
            cases h
        | error _ =>
            rw [hkey] at h
            cases h
      · cases h
  · rename_i hcut
    rw [PathSegment.nameIn_eq_self (cutAt?_eq_none_iff.mp hcut)]
    split at h
    · cases h
    · cases hsegment : nameSegment text text index with
      | ok _ =>
          rw [hsegment] at h
          cases h
      | error e =>
          rw [hsegment] at h
          cases h
          exact ⟨(invalidIdentifier_of_nameSegment hsegment).1, rfl⟩

/-- The first text that cannot be classified gives the error. -/
theorem exists_of_classify {style : KeyStyle} {index : Nat} {previous : Option PathSegment}
    {texts : List Text} {e : PathError} (h : classify style index previous texts = .error e) :
    ∃ before text after previous', texts = before ++ text :: after ∧
      (∃ classified, classify style index previous before = .ok classified) ∧
      classifySegment style (index + before.length) previous' text = .error e := by
  induction texts generalizing index previous with
  | nil => cases h
  | cons first rest ih =>
      rcases bind_eq_error h with hfirst | ⟨group, hgroup, h⟩
      · exact ⟨[], first, rest, previous, rfl, ⟨[], rfl⟩, hfirst⟩
      rcases bind_eq_error h with hrest | ⟨_, -, h⟩
      · obtain ⟨before, text, after, previous', rfl, ⟨classified, hbefore⟩, htext⟩ := ih hrest
        refine ⟨first :: before, text, after, previous', rfl, ⟨group.map (index, ·) ++ classified, ?_⟩, ?_⟩
        · exact bind_eq_ok.mpr ⟨group, hgroup, bind_eq_ok.mpr ⟨classified, hbefore, rfl⟩⟩
        · rw [List.length_cons, Nat.add_comm before.length, ← Nat.add_assoc]
          exact htext
      · cases h

theorem splitSegments_ne_invalidIdentifier {current : Text} {depth : Nat} {inQuotes : Bool} {text : Text} :
    splitSegments current depth inQuotes text ≠ .error (.invalidIdentifier segment c position) := by
  induction text generalizing current depth inQuotes with
  | nil =>
      rw [splitSegments]
      split
      · exact fun h => by cases h
      · exact fun h => by cases h
  | cons first rest ih =>
      rw [splitSegments.eq_def]
      dsimp only
      split
      · exact ih
      split
      · exact ih
      split
      · exact ih
      split
      · cases depth with
        | zero => exact fun h => by cases h
        | succ depth => exact ih
      split
      · intro h
        cases hrest : splitSegments [] depth inQuotes rest with
        | ok _ =>
            rw [hrest] at h
            cases h
        | error e =>
            rw [hrest] at h
            cases h
            exact ih hrest
      · exact ih

theorem checkOrder_ne_invalidIdentifier {count : Nat} {previous : Option PathSegment}
    {classified : List (Nat × PathSegment)} :
    checkOrder count previous classified ≠ .error (.invalidIdentifier segment c position) := by
  induction classified generalizing previous with
  | nil => exact fun h => by cases h
  | cons first rest ih =>
      rw [checkOrder]
      split
      · exact fun h => by cases h
      · exact ih

/-- **The position of a wrong character.** If a path is rejected for a character in a name, the segment
that the error shows is the first of the path's texts that cannot be classified. The character stands in it
at the position that is given exactly if it is not a later text whose name is identifiers with a dot behind
the last of them. There the error blames a dot at the end of the name, one character behind the last
dot. -/
theorem parse_invalidIdentifier_iff {text : Text} {style : KeyStyle}
    (h : parse text style = .error (.invalidIdentifier segment c position)) :
    ∃ decoded before after classified, Percent.unescape text = .ok decoded ∧
      splitSegments [] 0 false decoded = .ok (before ++ segment :: after) ∧
      classify style 0 none before = .ok classified ∧
      (segment[position]? = some c ↔ ¬(before ≠ [] ∧ EndsWithDot (PathSegment.nameIn segment))) ∧
      (before ≠ [] ∧ EndsWithDot (PathSegment.nameIn segment) →
        position = (PathSegment.nameIn segment).length ∧ c = '.') := by
  rw [parse] at h
  split at h
  · cases h
  split at h
  · cases h
  rename_i decoded hdecoded
  rcases bind_eq_error h with hsplit | ⟨texts, hsplit, h⟩
  · exact absurd hsplit splitSegments_ne_invalidIdentifier
  rcases bind_eq_error h with hclassify | ⟨_, -, h⟩
  rotate_left
  · rcases bind_eq_error h with hcheck | ⟨_, -, h⟩
    · exact absurd hcheck checkOrder_ne_invalidIdentifier
    · cases h
  obtain ⟨before, found, after, _, rfl, ⟨classified, hbefore⟩, hfound⟩ := exists_of_classify hclassify
  obtain ⟨rfl, hname⟩ := invalidIdentifier_of_classifySegment hfound
  have hlater : 0 < 0 + before.length ↔ before ≠ [] := by
    rw [Nat.zero_add, List.length_pos_iff]
  obtain ⟨key, hsegment, hkey⟩ : ∃ key, segment = PathSegment.nameIn segment ++ key ∧
      key.head? ≠ some '.' := by
    refine ⟨segment.dropWhile (· ≠ '('), List.takeWhile_append_dropWhile.symm, fun hhead => ?_⟩
    have hnot := head?_dropWhile (· ≠ '(') segment
    rw [hhead] at hnot
    exact absurd hnot (by decide)
  refine ⟨decoded, before, after, classified, hdecoded, hsplit, hbefore, ?_⟩
  have hplace := (invalidIdentifier_of_nameSegment hname).2
  rw [hlater] at hplace
  rcases hplace with ⟨hbehind, hends, hposition, rfl⟩ | ⟨hnot, hchar⟩
  · refine ⟨iff_of_false ?_ fun hnot => hnot ⟨hbehind, hends⟩, fun _ => ⟨hposition, rfl⟩⟩
    rw [hsegment, hposition, List.getElem?_append_right (Nat.le_refl _), Nat.sub_self,
      ← List.head?_eq_getElem?]
    exact hkey
  · refine ⟨iff_of_true ?_ hnot, fun hboth => absurd hboth hnot⟩
    rw [hsegment, List.getElem?_append_left (List.getElem?_eq_some_iff.mp hchar).1]
    exact hchar

/-- A dot behind the name of an operation is blamed on its key's parenthesis. -/
theorem parse_invalidIdentifier_iff_keyed :
    let text : Text := "People/NS.(1)".toList
    let segment : Text := "NS.(1)".toList
    parse text .parentheses = .error (.invalidIdentifier segment '.' 3) ∧
      ∃ decoded before after classified, Percent.unescape text = .ok decoded ∧
        splitSegments [] 0 false decoded = .ok (before ++ segment :: after) ∧
        classify .parentheses 0 none before = .ok classified ∧
        (segment[3]? = some '.' ↔ ¬(before ≠ [] ∧ EndsWithDot (PathSegment.nameIn segment))) ∧
        (before ≠ [] ∧ EndsWithDot (PathSegment.nameIn segment) →
          3 = (PathSegment.nameIn segment).length ∧ '.' = '.') := by
  intro text segment
  have hparse : parse text .parentheses = .error (.invalidIdentifier segment '.' 3) := by
    decide +kernel
  exact ⟨hparse, parse_invalidIdentifier_iff hparse⟩

end ResourcePath

end ODataRequest
